import Mathlib.Data.Set.Card
import SexpReader.Proofs.Folding
import SexpReader.Proofs.Printing

/-!
# Equality does not look at bounds

Two trees are equal exactly if they are the same tree once their bounds are removed, at every depth.
What folding makes of a tree does not depend on its bounds, so it is the same for equal trees; this
includes every hash that is put together from the texts of atoms and the hashes of elements. Hence a
hash set of trees holds one tree for each tree without bounds.
-/

namespace SexpReader

namespace Node

/-! ## Equality -/

mutual

theorem same_iff_unplaced_eq : ∀ t u : Node, t.same u = true ↔ t.unplaced = u.unplaced
  | .atom v b, .atom w c => by
      change (v == w) = true ↔ Tree.atom v .unknown = Tree.atom w .unknown
      rw [beq_iff_eq, Tree.atom.injEq, and_iff_left rfl]
  | .atom _ _, .list _ _ => ⟨nofun, nofun⟩
  | .list _ _, .atom _ _ => ⟨nofun, nofun⟩
  | .list xs b, .list ys c => by
      change Tree.sameAllBy (· == ·) xs ys = true ↔
        Tree.list (Tree.unplacedAll xs) .unknown = Tree.list (Tree.unplacedAll ys) .unknown
      rw [Tree.list.injEq, and_iff_left rfl, sameAll_iff_unplacedAll_eq xs ys]

theorem sameAll_iff_unplacedAll_eq : ∀ xs ys : List Node,
    Tree.sameAllBy (· == ·) xs ys = true ↔ Tree.unplacedAll xs = Tree.unplacedAll ys
  | [], [] => ⟨fun _ => rfl, fun _ => rfl⟩
  | [], _ :: _ => ⟨nofun, nofun⟩
  | _ :: _, [] => ⟨nofun, nofun⟩
  | x :: xs, y :: ys => by
      rw [Tree.sameAllBy, Bool.and_eq_true, sameAll_iff_unplacedAll_eq xs ys, Tree.unplacedAll,
        Tree.unplacedAll, List.cons.injEq, ← same_iff_unplaced_eq x y]
      rfl

end

theorem beq_iff_unplaced_eq {t u : Node} : (t == u) = true ↔ t.unplaced = u.unplaced :=
  same_iff_unplaced_eq t u

instance : EquivBEq Node where
  rfl := beq_iff_unplaced_eq.2 rfl
  symm h := beq_iff_unplaced_eq.2 (beq_iff_unplaced_eq.1 h).symm
  trans h h' := beq_iff_unplaced_eq.2 ((beq_iff_unplaced_eq.1 h).trans (beq_iff_unplaced_eq.1 h'))

theorem unplacedAll_eq_map (xs : List Node) : Tree.unplacedAll xs = xs.map Tree.unplaced := by
  induction xs with
  | nil => rfl
  | cons x xs ih => rw [Tree.unplacedAll, ih, List.map_cons]

/-- Equal trees stand for each other in any list. -/
theorem list_beq_list {t u : Node} (h : (t == u) = true) (front back : List Node) (b c : Bounds) :
    ((.list (front ++ t :: back) b : Node) == .list (front ++ u :: back) c) = true := by
  rw [beq_iff_unplaced_eq] at h ⊢
  rw [Tree.unplaced, Tree.unplaced, unplacedAll_eq_map, unplacedAll_eq_map, List.map_append,
    List.map_append, List.map_cons, List.map_cons, h]

/-! ## What is made of a tree -/

section Folding

variable {m : Type → Type} [Monad m] {α : Type}

mutual

/-- Folding does not look at bounds. -/
theorem foldM_unplaced (f : Layer α → m α) : ∀ t : Node, foldM f t.unplaced = t.foldM f
  | .atom _ _ => rfl
  | .list xs b => by
      rw [Tree.unplaced, foldM_list, foldM_list, foldAllM_unplacedAll f xs]

theorem foldAllM_unplacedAll (f : Layer α → m α) : ∀ xs : List Node,
    foldAllM f (Tree.unplacedAll xs) = foldAllM f xs
  | [] => rfl
  | x :: xs => by
      rw [Tree.unplacedAll, foldAllM_cons, foldAllM_cons, foldM_unplaced f x,
        foldAllM_unplacedAll f xs]

end

theorem foldM_eq_of_beq (f : Layer α → m α) {t u : Node} (h : (t == u) = true) :
    t.foldM f = u.foldM f := by
  rw [← foldM_unplaced f t, beq_iff_unplaced_eq.1 h, foldM_unplaced]

end Folding

theorem fold_eq_of_beq {α : Type} (f : Layer α → α) {t u : Node} (h : (t == u) = true) :
    t.fold f = u.fold f :=
  congrArg Id.run (foldM_eq_of_beq _ h)

/-- One layer of a hash. -/
def hashLayer : Layer UInt64 → UInt64
  | .atom v => mixHash 3 (hash v)
  | .list hs => mixHash 5 (hs.foldr mixHash 7)

mutual

theorem hashCode_eq_fold : ∀ t : Node, t.hashCode = t.fold hashLayer
  | .atom _ _ => rfl
  | .list xs b => by
      rw [fold_list, Tree.hashCode, hashAll_eq_foldr xs]
      rfl

theorem hashAll_eq_foldr : ∀ xs : List Node,
    Tree.hashAll xs = (xs.map (fold hashLayer)).foldr mixHash 7
  | [] => rfl
  | x :: xs => by
      rw [Tree.hashAll, hashCode_eq_fold x, hashAll_eq_foldr xs]
      rfl

end

theorem hashCode_eq_of_beq {t u : Node} (h : (t == u) = true) : t.hashCode = u.hashCode := by
  rw [hashCode_eq_fold, hashCode_eq_fold, fold_eq_of_beq hashLayer h]

mutual

/-- Trees are compared in the same way if they could have had other leaves. -/
theorem sameBy_toTree {α : Type} (eq : α → α → Bool) : ∀ t u : Node,
    t.toTree.sameBy eq u.toTree = t.same u
  | .atom _ _, .atom _ _ => rfl
  | .atom _ _, .list ys c => by
      rw [toTree_list]
      rfl
  | .list xs b, .atom _ _ => by
      rw [toTree_list]
      rfl
  | .list xs b, .list ys c => by
      rw [toTree_list, toTree_list, Tree.sameBy, sameAllBy_map_toTree eq xs ys]
      rfl

theorem sameAllBy_map_toTree {α : Type} (eq : α → α → Bool) : ∀ xs ys : List Node,
    Tree.sameAllBy eq (xs.map toTree) (ys.map toTree) = Tree.sameAllBy (· == ·) xs ys
  | [], [] => rfl
  | [], _ :: _ => rfl
  | _ :: _, [] => rfl
  | x :: xs, y :: ys => by
      rw [List.map_cons, List.map_cons, Tree.sameAllBy, sameBy_toTree eq x y,
        sameAllBy_map_toTree eq xs ys]
      rfl

end

end Node

/-! ## Sets -/

section Counting

variable {α β : Type}

/-- A list without repetitions is as long as there are different keys in it. -/
theorem ncard_keys_eq_length {key : α → β} {as bs : List α}
    (hbs : bs.Pairwise fun a b => key a ≠ key b)
    (hkeys : ∀ k, (∃ a ∈ as, key a = k) ↔ ∃ b ∈ bs, key b = k) :
    {k | ∃ a ∈ as, key a = k}.ncard = bs.length := by
  classical
  have hnodup : (bs.map key).Nodup := List.pairwise_map.2 hbs
  have hset : {k | ∃ a ∈ as, key a = k} = ((bs.map key).toFinset : Set β) := by
    ext k
    rw [Set.mem_ofPred_eq, hkeys, Finset.mem_coe, List.mem_toFinset, List.mem_map]
  rw [hset, Set.ncard_coe_finset, List.toFinset_card_of_nodup hnodup, List.length_map]

-- Both inductions are on the length: an element is followed by those that differ from it.

theorem eraseDupsBy_map (f : α → β) (r : β → β → Bool) (as : List α) :
    (as.map f).eraseDupsBy r = (as.eraseDupsBy fun a b => r (f a) (f b)).map f := by
  match as with
  | [] => rfl
  | a :: as =>
      rw [List.map_cons, List.eraseDupsBy_cons, List.filter_map, eraseDupsBy_map f r,
        List.eraseDupsBy_cons, List.map_cons]
      rfl
termination_by as.length
decreasing_by exact Nat.lt_succ_of_le (List.length_filter_le _ _)

theorem eraseDupsBy_spec {key : α → β} {r : α → α → Bool} (hr : ∀ a b, r a b = true ↔ key a = key b)
    (as : List α) : ((as.eraseDupsBy r).Pairwise fun a b => key a ≠ key b) ∧
      ∀ k, (∃ a ∈ as, key a = k) ↔ ∃ a ∈ as.eraseDupsBy r, key a = k := by
  match as with
  | [] => exact ⟨.nil, fun _ => Iff.rfl⟩
  | a :: as =>
      have hfilter : ∀ b, b ∈ as.filter (fun b => decide (r b a = false)) ↔
          b ∈ as ∧ key b ≠ key a := by
        intro b
        rw [List.mem_filter, decide_eq_true_iff, ← Bool.not_eq_true, hr]
      obtain ⟨hpairwise, hkeys⟩ := eraseDupsBy_spec hr (as.filter fun b => decide (r b a = false))
      rw [List.eraseDupsBy_cons]
      constructor
      · refine List.pairwise_cons.2 ⟨fun b hb heq => ?_, hpairwise⟩
        obtain ⟨c, hc, hcb⟩ := (hkeys (key b)).2 ⟨b, hb, rfl⟩
        exact ((hfilter c).1 hc).2 (hcb.trans heq.symm)
      · intro k
        rw [List.exists_mem_cons_iff, List.exists_mem_cons_iff, ← hkeys]
        by_cases hk : key a = k
        · exact ⟨fun _ => .inl hk, fun _ => .inl hk⟩
        · refine or_congr_right (exists_congr fun b => and_congr_left fun hb => ?_)
          rw [hfilter, hb, and_iff_left (Ne.symm hk)]
termination_by as.length
decreasing_by exact Nat.lt_succ_of_le (List.length_filter_le _ _)

end Counting

namespace Node

/-- The number of trees in a hash set of the trees in a list. What the hash is made of comes from
the layers of a tree. -/
def countInSet (h : Layer UInt64 → UInt64) (ts : List Node) : Nat :=
  (@Std.HashSet.ofList Node _ ⟨fold h⟩ ts).size

theorem lawfulHashable_fold (h : Layer UInt64 → UInt64) : @LawfulHashable Node _ ⟨fold h⟩ :=
  @LawfulHashable.mk Node _ ⟨fold h⟩ fun _ _ htu => fold_eq_of_beq h htu

theorem exists_unplaced_of_contains {ts us : List Node} (h : ∀ t, ts.contains t = us.contains t)
    {k : Node} : (∃ t ∈ ts, t.unplaced = k) → ∃ u ∈ us, u.unplaced = k := by
  rintro ⟨t, ht, rfl⟩
  have hts : ts.contains t = true := List.contains_iff_exists_mem_beq.2 ⟨t, ht, BEq.rfl⟩
  rw [h] at hts
  obtain ⟨u, hu, htu⟩ := List.contains_iff_exists_mem_beq.1 hts
  exact ⟨u, hu, (beq_iff_unplaced_eq.1 htu).symm⟩

/-- The set has one tree for each tree without bounds. -/
theorem ncard_unplaced_eq_countInSet (h : Layer UInt64 → UInt64) (ts : List Node) :
    {u | ∃ t ∈ ts, t.unplaced = u}.ncard = countInSet h ts := by
  let _ : Hashable Node := ⟨fold h⟩
  have _ : LawfulHashable Node := lawfulHashable_fold h
  have hcontains : ∀ t, ts.contains t = (Std.HashSet.ofList ts).toList.contains t := by
    intro t
    rw [Std.HashSet.contains_toList, Std.HashSet.contains_ofList]
  have hsize : (Std.HashSet.ofList ts).toList.length = countInSet h ts := Std.HashSet.length_toList
  rw [← hsize]
  apply ncard_keys_eq_length
  · refine Std.HashSet.distinct_toList.imp fun hne heq => ?_
    rw [beq_iff_unplaced_eq.2 heq] at hne
    cases hne
  · intro k
    exact ⟨exists_unplaced_of_contains hcontains,
      exists_unplaced_of_contains fun t => (hcontains t).symm⟩

theorem ncard_unplaced_eq_countDistinct (ts : List Node) :
    {u | ∃ t ∈ ts, t.unplaced = u}.ncard = Entry.countDistinct (ts.map toTree) := by
  obtain ⟨hpairwise, hkeys⟩ := eraseDupsBy_spec same_iff_unplaced_eq ts
  have hsame : (fun t u : Node => Tree.same (t.toTree : Entry) u.toTree) = Tree.same :=
    funext fun t => funext fun u => sameBy_toTree _ t u
  rw [ncard_keys_eq_length hpairwise hkeys, Entry.countDistinct, eraseDupsBy_map, hsame,
    List.length_map]

end Node

open Node

/-- Equality of trees is equality apart from all bounds. It is an equivalence, no atom equals a
list, and what is equal has the same hash, the same printed form and the same result of every fold,
and stands for one another in every list. In a set there is one tree for each tree without bounds,
whichever hash the set has. -/
theorem equality_blind_to_bounds :
    (∀ t u : Node, (t == u) = true ↔ t.unplaced = u.unplaced) ∧
    (∀ t u : Node, ((t.toTree : Entry) == u.toTree) = (t == u)) ∧
    Equivalence (fun t u : Node => (t == u) = true) ∧
    (∀ (v : Text) (xs : List Node) (b c : Bounds), ((.atom v b : Node) == .list xs c) = false) ∧
    (∀ t u : Node, (t == u) = true →
      t.hashCode = u.hashCode ∧ (∀ h : Layer UInt64 → UInt64, t.fold h = u.fold h) ∧
      Entry.hashesAlike t.toTree u.toTree = true ∧ t.print false = u.print false ∧
      (∀ (m : Type → Type) [Monad m] (α : Type) (f : Layer α → m α), t.foldM f = u.foldM f) ∧
      ∀ (front back : List Node) (b c : Bounds),
        ((.list (front ++ t :: back) b : Node) == .list (front ++ u :: back) c) = true) ∧
    ∀ ts : List Node,
      Entry.countDistinct (ts.map toTree) = {u | ∃ t ∈ ts, t.unplaced = u}.ncard ∧
      ∀ h : Layer UInt64 → UInt64, countInSet h ts = {u | ∃ t ∈ ts, t.unplaced = u}.ncard := by
  refine ⟨same_iff_unplaced_eq, sameBy_toTree _, ⟨fun _ => BEq.rfl, BEq.symm, BEq.trans⟩,
    fun _ _ _ _ => rfl, ?_, ?_⟩
  · intro t u h
    refine ⟨hashCode_eq_of_beq h, fun f => fold_eq_of_beq f h, ?_, print_eq_of_same t u h,
      fun _ _ _ f => foldM_eq_of_beq f h, list_beq_list h⟩
    rw [Entry.hashesAlike, sameBy_toTree]
    exact h
  · intro ts
    exact ⟨(ncard_unplaced_eq_countDistinct ts).symm,
      fun h => (ncard_unplaced_eq_countInSet h ts).symm⟩

/-- A tree that was parsed, the same made by hand with other bounds and without, and an atom. -/
theorem equality_of_parsed_and_handmade :
    let t : Node := .list [.atom "a" (.between 1 2), .list [] (.between 3 5)] (.between 0 6)
    let u : Node := .list [.atom "a" .unknown, .list [] ⟨none, some (-7)⟩] .unknown
    parseBytes .standard [0x28, 0x61, 0x20, 0x28, 0x29, 0x29] = .ok t ∧ (t == u) = true ∧
      t.hashCode = u.hashCode ∧ t.print false = u.print false ∧ t.print true ≠ u.print true ∧
      ∀ h, countInSet h [t, .atom "a" .unknown, u] = 2 := by
  intro t u
  obtain ⟨hiff, -, -, -, halike, hcount⟩ := equality_blind_to_bounds
  have htu : (t == u) = true := (hiff t u).2 rfl
  obtain ⟨hhash, -, -, hprint, -⟩ := halike t u htu
  obtain ⟨hdistinct, hset⟩ := hcount [t, .atom "a" .unknown, u]
  refine ⟨rfl, htu, hhash, hprint, by decide, fun h => ?_⟩
  rw [hset h, ← hdistinct]
  rfl

end SexpReader
