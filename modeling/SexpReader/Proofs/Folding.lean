import SexpReader.Entry
import SexpReader.Proofs.Postorder

/-!
# Folding calls a function for one node after the other

A function on layers is called once for each node of a tree, in postorder, so the results for the
elements of a list are there when its turn comes. `Node.call` is one such call: it takes the results
of the elements from a stack and puts its own there. Folding is the sequence of these calls,
whatever effects they have.

If the only effect is that a call may fail, then nothing is called after the first failure.
`Node.recorded` notes down what the function is called with; `Node.Passes` says what that has to be
for a node, and `Node.Calls` what has to come of a sequence of nodes.

Folding without a function gives nested lists of texts, which are all there is to a tree apart from
its bounds.
-/

namespace SexpReader

namespace Node

section Equations

variable {m : Type → Type} [Monad m] {α : Type}

/-- Folds a sequence of expressions from left to right. -/
def foldAllM (f : Layer α → m α) (xs : List Node) : m (List α) := Tree.foldAllM nofun f xs

theorem foldM_list (f : Layer α → m α) (xs : List Node) (b : Bounds) :
    foldM f (.list xs b) = foldAllM f xs >>= fun rs => f (.list rs) := rfl

theorem foldAllM_nil (f : Layer α → m α) : foldAllM f [] = pure [] := rfl

theorem foldAllM_cons (f : Layer α → m α) (x : Node) (xs : List Node) :
    foldAllM f (x :: xs) =
      x.foldM f >>= fun r => foldAllM f xs >>= fun rs => pure (r :: rs) := rfl

end Equations

/-! ## Calls with any effects -/

section Effects

variable {m : Type → Type} [Monad m] {α β : Type}

/-- Calls the function for one node. On the stack are the results for the nodes before it, the last
one on top; the result for a list takes the place of those for its elements. -/
def call (f : Layer α → m α) (stack : List α) : Node → m (List α)
  | .atom v _ => return (← f (.atom v)) :: stack
  | .list xs _ =>
    return (← f (.list (stack.take xs.length).reverse)) :: stack.drop xs.length

theorem call_list (f : Layer α → m α) {xs : List Node} {rs : List α} (h : rs.length = xs.length)
    (b : Bounds) (stack : List α) :
    call f (rs.reverse ++ stack) (.list xs b) = do return (← f (.list rs)) :: stack := by
  have hlen : xs.length = rs.reverse.length := by rw [List.length_reverse, h]
  rw [call, hlen, List.take_left, List.drop_left, List.reverse_reverse]

variable [LawfulMonad m]

/-- There are as many results as elements. -/
theorem bind_foldAllM_congr (f : Layer α → m α) {k k' : List α → m β} (xs : List Node)
    (h : ∀ rs, rs.length = xs.length → k rs = k' rs) :
    foldAllM f xs >>= k = foldAllM f xs >>= k' := by
  induction xs generalizing k k' with
  | nil =>
      rw [foldAllM_nil, pure_bind, pure_bind]
      exact h [] rfl
  | cons x xs ih =>
      simp only [foldAllM_cons, bind_assoc, pure_bind]
      refine bind_congr fun r => ih fun rs hrs => h (r :: rs) ?_
      rw [List.length_cons, hrs, List.length_cons]

mutual

/-- Folding a tree is calling the function for its nodes in postorder. -/
theorem foldlM_call_postorder (f : Layer α → m α) : ∀ (t : Node) (stack : List α),
    t.postorder.foldlM (call f) stack = do return (← t.foldM f) :: stack
  | .atom v b, stack => List.foldlM_cons.trans (bind_pure _)
  | .list xs b, stack => by
      rw [Tree.postorder, List.foldlM_append, foldlM_call_postorderAll f xs stack, foldM_list]
      simp only [bind_assoc, pure_bind, List.foldlM_cons, List.foldlM_nil, bind_pure]
      exact bind_foldAllM_congr f xs fun rs hrs => call_list f hrs b stack

theorem foldlM_call_postorderAll (f : Layer α → m α) : ∀ (xs : List Node) (stack : List α),
    (Tree.postorderAll xs).foldlM (call f) stack = do return (← foldAllM f xs).reverse ++ stack
  | [], stack => by
      rw [foldAllM_nil, pure_bind]
      rfl
  | x :: xs, stack => by
      rw [Tree.postorderAll, List.foldlM_append, foldlM_call_postorder f x stack, foldAllM_cons]
      simp only [bind_assoc, pure_bind, foldlM_call_postorderAll f xs, List.reverse_cons,
        List.append_assoc, List.singleton_append]

end

end Effects

/-! ## Calls that may fail -/

/-- The root is the last of the nodes in postorder. -/
theorem exists_postorder_eq (t : Node) : ∃ inner, t.postorder = inner ++ [t] := by
  cases t with
  | atom v b => exact ⟨[], rfl⟩
  | list xs b => exact ⟨Tree.postorderAll xs, rfl⟩
  | leaf x => cases x

section Failing

variable {α ε : Type}

/-- A computation that may fail and keeps a record of calls, which a failure leaves as it is. -/
abbrev Recording (α ε : Type) := ExceptT ε (StateM (List (Layer α)))

/-- The result of a computation, and the record after it. -/
def Recording.after {β : Type} (log : List (Layer α)) (x : Recording α ε β) :
    Except ε β × List (Layer α) := x.run.run log

/-- A function that may fail. What it is called with is recorded before it is called. -/
def recorded (f : Layer α → Except ε α) (l : Layer α) : Recording α ε α := do
  modify (· ++ [l])
  match f l with
  | .ok r => return r
  | .error e => throw e

/-- What the function is called with for a node: the text of an atom, or the results for the
elements of a list in their order. -/
inductive Passes (f : Layer α → Except ε α) : Node → Layer α → Prop
  | atom (v : Text) (b : Bounds) : Passes f (.atom v b) (.atom v)
  | list {xs : List Node} {rs : List α} (b : Bounds)
      (h : List.Forall₂ (fun x r => x.foldM f = .ok r) xs rs) :
      Passes f (.list xs b) (.list rs)

/-- What comes of calling the function for a sequence of nodes: it is called until it fails. -/
inductive Calls (f : Layer α → Except ε α) : List Node → List (Layer α) → Except ε Unit → Prop
  | nil : Calls f [] [] (.ok ())
  | ok {x : Node} {xs : List Node} {l : Layer α} {ls : List (Layer α)} {r : α}
      {outcome : Except ε Unit} (hl : Passes f x l) (hr : f l = .ok r)
      (rest : Calls f xs ls outcome) : Calls f (x :: xs) (l :: ls) outcome
  | error {x : Node} {xs : List Node} {l : Layer α} {e : ε} (hl : Passes f x l)
      (he : f l = .error e) : Calls f (x :: xs) [l] (.error e)

variable {f : Layer α → Except ε α} {ns ms : List Node} {ls ks : List (Layer α)} {e : ε}
  {outcome : Except ε Unit}

theorem Calls.single {x : Node} {l : Layer α} (hl : Passes f x l) :
    Calls f [x] [l] ((f l).map fun _ => ()) := by
  cases h : f l with
  | ok r => exact .ok hl h .nil
  | error e => exact .error hl h

theorem Calls.append (h : Calls f ns ls (.ok ())) (h' : Calls f ms ks outcome) :
    Calls f (ns ++ ms) (ls ++ ks) outcome := by
  generalize hok : Except.ok () = ok at h
  induction h with
  | nil => exact h'
  | ok hl hr _ ih => exact .ok hl hr (ih hok)
  | error => cases hok

theorem Calls.append_of_error (h : Calls f ns ls (.error e)) (ms : List Node) :
    Calls f (ns ++ ms) ls (.error e) := by
  generalize herror : Except.error e = error at h
  induction h with
  | nil => cases herror
  | ok hl hr _ ih => exact .ok hl hr (ih herror)
  | error hl he => exact .error hl he

/-- Without a failure, there is a call for each node. -/
theorem Calls.of_ok (h : Calls f ns ls (.ok ())) :
    List.Forall₂ (Passes f) ns ls ∧ ∀ l ∈ ls, ∃ r, f l = .ok r := by
  generalize hok : Except.ok () = ok at h
  induction h with
  | nil => exact ⟨.nil, nofun⟩
  | @ok _ _ _ _ r _ hl hr _ ih =>
      obtain ⟨hpasses, hall⟩ := ih hok
      exact ⟨.cons hl hpasses, List.forall_mem_cons.2 ⟨⟨r, hr⟩, hall⟩⟩
  | error => cases hok

/-- With a failure, there are calls up to the first node whose call fails. -/
theorem Calls.of_error (h : Calls f ns ls (.error e)) : ∃ called x left before last,
    ns = called ++ x :: left ∧ ls = before ++ [last] ∧ List.Forall₂ (Passes f) called before ∧
      (∀ l ∈ before, ∃ r, f l = .ok r) ∧ Passes f x last ∧ f last = .error e := by
  generalize herror : Except.error e = error at h
  induction h with
  | nil => cases herror
  | @ok y _ l _ r _ hl hr _ ih =>
      obtain ⟨called, x, left, before, last, rfl, rfl, hpasses, hall, hlast⟩ := ih herror
      exact ⟨y :: called, x, left, l :: before, last, rfl, rfl, .cons hl hpasses,
        List.forall_mem_cons.2 ⟨⟨r, hr⟩, hall⟩, hlast⟩
  | @error x xs l e hl he =>
      cases herror
      exact ⟨[], x, xs, [], l, rfl, rfl, .nil, nofun, hl, he⟩

theorem forall₂_of_foldAllM {xs : List Node} {rs : List α} (h : foldAllM f xs = .ok rs) :
    List.Forall₂ (fun x r => x.foldM f = .ok r) xs rs := by
  induction xs generalizing rs with
  | nil =>
      cases h
      exact .nil
  | cons x xs ih =>
      rw [foldAllM_cons] at h
      cases hx : x.foldM f with
      | error e =>
          rw [hx] at h
          cases h
      | ok r =>
          cases hxs : foldAllM f xs with
          | error e =>
              rw [hx, hxs] at h
              cases h
          | ok rs =>
              rw [hx, hxs] at h
              cases h
              exact .cons hx (ih hxs)

theorem foldAllM_of_forall₂ {xs : List Node} {rs : List α}
    (h : List.Forall₂ (fun x r => x.foldM f = .ok r) xs rs) : foldAllM f xs = .ok rs := by
  induction h with
  | nil => rfl
  | cons hx _ ih =>
      rw [foldAllM_cons, hx, ih]
      rfl

/-- The result for a node is the result of its call. -/
theorem Passes.foldM_eq {t : Node} {l : Layer α} (h : Passes f t l) : t.foldM f = f l := by
  cases h with
  | atom v b => rfl
  | list b h =>
      rw [foldM_list, foldAllM_of_forall₂ h]
      rfl

/-- The last call is the one for the root. -/
theorem Calls.exists_last {t : Node} (h : Calls f t.postorder ls (.ok ())) :
    ∃ before last, ls = before ++ [last] ∧ Passes f t last := by
  obtain ⟨inner, hinner⟩ := t.exists_postorder_eq
  have hpasses := h.of_ok.1
  rw [hinner] at hpasses
  obtain ⟨last, rest, hlast, hrest, hdrop⟩ :=
    List.forall₂_cons_right_iff.1 (List.forall₂_drop_append _ _ _ hpasses.flip)
  refine ⟨ls.take inner.length, last, ?_, hlast⟩
  rw [List.forall₂_nil_right_iff.1 hrest] at hdrop
  rw [← hdrop, List.take_append_drop]

theorem after_recorded (f : Layer α → Except ε α) (l : Layer α) (log : List (Layer α)) :
    (recorded f l).after log = (f l, log ++ [l]) := by
  unfold recorded
  cases f l <;> rfl

namespace Recording

variable {β γ : Type} {x : Recording α ε β} {log log' : List (Layer α)}

theorem after_bind_of_ok {r : β} (h : x.after log = (.ok r, log')) (k : β → Recording α ε γ) :
    (x >>= k).after log = (k r).after log' := by
  change x.run.run log = _ at h
  rw [after, ExceptT.run_bind, StateT.run_bind, h]
  rfl

theorem after_bind_of_error (h : x.after log = (.error e, log')) (k : β → Recording α ε γ) :
    (x >>= k).after log = (.error e, log') := by
  change x.run.run log = _ at h
  rw [after, ExceptT.run_bind, StateT.run_bind, h]
  rfl

theorem after_bind_pure {o : Except ε β} (h : x.after log = (o, log')) (g : β → γ) :
    (x >>= fun r => pure (g r)).after log = (o >>= fun r => pure (g r), log') := by
  cases o with
  | ok r => exact after_bind_of_ok h _
  | error e => exact after_bind_of_error h _

end Recording

mutual

/-- Recording the calls does not change the result. -/
theorem exists_calls (f : Layer α → Except ε α) : ∀ (t : Node) (log : List (Layer α)), ∃ ls,
    Recording.after log (t.foldM (recorded f)) = (t.foldM f, log ++ ls) ∧
      Calls f t.postorder ls ((t.foldM f).map fun _ => ())
  | .atom v b, log => ⟨[.atom v], after_recorded f (.atom v) log, .single (.atom v b)⟩
  | .list xs b, log => by
      obtain ⟨ls, hafter, hcalls⟩ := exists_callsAll f xs log
      rw [foldM_list, foldM_list]
      cases hxs : foldAllM f xs with
      | ok rs =>
          rw [hxs] at hafter hcalls
          refine ⟨ls ++ [.list rs], ?_, hcalls.append (.single (.list b (forall₂_of_foldAllM hxs)))⟩
          rw [Recording.after_bind_of_ok hafter, after_recorded, List.append_assoc]
          rfl
      | error e =>
          rw [hxs] at hafter hcalls
          exact ⟨ls, Recording.after_bind_of_error hafter _, hcalls.append_of_error _⟩

theorem exists_callsAll (f : Layer α → Except ε α) : ∀ (xs : List Node) (log : List (Layer α)),
    ∃ ls, Recording.after log (foldAllM (recorded f) xs) = (foldAllM f xs, log ++ ls) ∧
      Calls f (Tree.postorderAll xs) ls ((foldAllM f xs).map fun _ => ())
  | [], log => ⟨[], by rw [List.append_nil]; rfl, .nil⟩
  | x :: xs, log => by
      obtain ⟨ls, hafter, hcalls⟩ := exists_calls f x log
      rw [foldAllM_cons, foldAllM_cons]
      cases hx : x.foldM f with
      | ok r =>
          rw [hx] at hafter hcalls
          obtain ⟨ks, hafterAll, hcallsAll⟩ := exists_callsAll f xs (log ++ ls)
          refine ⟨ls ++ ks, ?_, ?_⟩
          · rw [Recording.after_bind_of_ok hafter, ← List.append_assoc]
            exact Recording.after_bind_pure hafterAll (r :: ·)
          · have houtcome : ((foldAllM f xs >>= fun rs => pure (r :: rs)).map fun _ => ()) =
                (foldAllM f xs).map fun _ => () := by cases foldAllM f xs <;> rfl
            exact houtcome ▸ hcalls.append hcallsAll
      | error e =>
          rw [hx] at hafter hcalls
          exact ⟨ls, Recording.after_bind_of_error hafter _, hcalls.append_of_error _⟩

end

end Failing

/-! ## Folding without a function -/

mutual

/-- The texts of the atoms, in lists as deep as the tree. -/
def nested : Node → Datum
  | .atom v _ => .text v
  | .list xs _ => .list (nestedAll xs)

/-- The nested texts of a sequence of expressions. -/
def nestedAll : List Node → List Datum
  | [] => []
  | x :: xs => nested x :: nestedAll xs

end

section Embedding

variable {m : Type → Type} [Monad m] {α β : Type}

theorem toTree_list (xs : List Node) (b : Bounds) :
    toTree (.list xs b : Node) = (.list (xs.map toTree) b : Tree α) := by
  have h : Id.run (Tree.replaceAllM nofun xs) = xs.map (toTree (α := α)) := by
    induction xs with
    | nil => rfl
    | cons x xs ih =>
        rw [List.map_cons, ← ih]
        rfl
  rw [← h]
  rfl

mutual

/-- An expression is folded in the same way if it could have had other leaves. -/
theorem foldM_toTree (leaf : α → m β) (f : Layer β → m β) : ∀ t : Node,
    t.toTree.foldM leaf f = t.foldM f
  | .atom v b => rfl
  | .list xs b => by
      rw [toTree_list, Tree.foldM, foldAllM_map_toTree leaf f xs]
      rfl

theorem foldAllM_map_toTree (leaf : α → m β) (f : Layer β → m β) : ∀ xs : List Node,
    Tree.foldAllM leaf f (xs.map toTree) = foldAllM f xs
  | [] => rfl
  | x :: xs => by
      rw [List.map_cons, Tree.foldAllM, foldM_toTree leaf f x, foldAllM_map_toTree leaf f xs]
      rfl

end

end Embedding

mutual

theorem foldM_ofLayer {ε : Type} : ∀ t : Node,
    t.foldM (fun l => Except.ok (Datum.ofLayer l)) = (.ok t.nested : Except ε Datum)
  | .atom v b => rfl
  | .list xs b => by
      rw [foldM_list, foldAllM_ofLayer xs]
      rfl

theorem foldAllM_ofLayer {ε : Type} : ∀ xs : List Node,
    foldAllM (fun l => Except.ok (Datum.ofLayer l)) xs = (.ok (nestedAll xs) : Except ε _)
  | [] => rfl
  | x :: xs => by
      rw [foldAllM_cons, foldM_ofLayer x, foldAllM_ofLayer xs]
      rfl

end

mutual

/-- Trees with the same nested texts are equal apart from their bounds. -/
theorem nested_eq_iff : ∀ t u : Node, t.nested = u.nested ↔ (t == u) = true
  | .atom v b, .atom w c => by
      change Datum.text v = Datum.text w ↔ (v == w) = true
      rw [Datum.text.injEq, beq_iff_eq]
  | .atom _ _, .list _ _ => ⟨nofun, nofun⟩
  | .list _ _, .atom _ _ => ⟨nofun, nofun⟩
  | .list xs b, .list ys c => by
      change Datum.list (nestedAll xs) = Datum.list (nestedAll ys) ↔
        Tree.sameAllBy (· == ·) xs ys = true
      rw [Datum.list.injEq, nestedAll_eq_iff xs ys]

theorem nestedAll_eq_iff : ∀ xs ys : List Node,
    nestedAll xs = nestedAll ys ↔ Tree.sameAllBy (· == ·) xs ys = true
  | [], [] => ⟨fun _ => rfl, fun _ => rfl⟩
  | [], _ :: _ => ⟨nofun, nofun⟩
  | _ :: _, [] => ⟨nofun, nofun⟩
  | x :: xs, y :: ys => by
      rw [nestedAll, nestedAll, List.cons.injEq, nested_eq_iff x y, nestedAll_eq_iff xs ys,
        Tree.sameAllBy, Bool.and_eq_true]
      rfl

end

end Node

open Node

/-- Folding a tree calls the function for the nodes in postorder, whatever effects the calls have.

If a call may fail and there is no other effect, then the function is called with the text of an
atom and with the results for the elements of a list. Either it is called just once for each node
and the result is that of the root, or it is called for the nodes up to the first whose call fails,
and the error is that of this call.

Without a function there are nested lists of texts instead, and these are the same for two trees
exactly if the trees are equal. -/
theorem fold_calls_postorder :
    (∀ (m : Type → Type) [Monad m] [LawfulMonad m] (α : Type) (f : Layer α → m α) (t : Node),
      t.postorder.foldlM (call f) [] = do return [← t.foldM f]) ∧
    (∀ (α ε : Type) (f : Layer α → Except ε α) (t : Node), ∃ ls,
      Recording.after [] (t.foldM (recorded f)) = (t.foldM f, ls) ∧
      ((∃ (r : α) (before : List (Layer α)) (last : Layer α), t.foldM f = .ok r ∧
          ls = before ++ [last] ∧
          List.Forall₂ (Passes f) t.postorder ls ∧ (∀ l ∈ ls, ∃ s, f l = .ok s) ∧
          Passes f t last ∧ f last = .ok r) ∨
        ∃ (e : ε) (called : List Node) (x : Node) (left : List Node)
            (before : List (Layer α)) (last : Layer α), t.foldM f = .error e ∧
          t.postorder = called ++ x :: left ∧ ls = before ++ [last] ∧
          List.Forall₂ (Passes f) called before ∧ (∀ l ∈ before, ∃ s, f l = .ok s) ∧
          Passes f x last ∧ f last = .error e)) ∧
    (∀ t : Node, Entry.convert .plain t.toTree = .ok t.nested) ∧
    ∀ t u : Node, t.nested = u.nested ↔ (t == u) = true := by
  refine ⟨?_, ?_, ?_, nested_eq_iff⟩
  · intro m _ _ α f t
    exact foldlM_call_postorder f t []
  · intro α ε f t
    obtain ⟨ls, hafter, hcalls⟩ := exists_calls f t []
    refine ⟨ls, hafter, ?_⟩
    cases ht : t.foldM f with
    | ok r =>
        rw [ht] at hcalls
        obtain ⟨hpasses, hall⟩ := hcalls.of_ok
        obtain ⟨before, last, hls, hlast⟩ := hcalls.exists_last
        exact .inl ⟨r, before, last, rfl, hls, hpasses, hall, hlast, hlast.foldM_eq.symm.trans ht⟩
    | error e =>
        rw [ht] at hcalls
        obtain ⟨called, x, left, before, last, hsplit, hls, hrest⟩ := hcalls.of_error
        exact .inr ⟨e, called, x, left, before, last, rfl, hsplit, hls, hrest⟩
  · intro t
    exact (foldM_toTree _ _ t).trans (foldM_ofLayer t)

/-- A list cannot be turned into a number. So the first element is turned into one, the empty list
behind it fails, and neither the last element nor the root has its turn. -/
theorem fold_calls_up_to_empty_list :
    let f := Conversion.integerLayer
    let t : Node :=
      .list [.atom "1" (.between 1 2), .list [] (.between 3 5), .atom "2" .unknown] .unknown
    LawfulMonad (Except Conversion.Error) ∧ t.foldM f = .error .listAsNumber ∧
      t.postorder.foldlM (call f) [] = .error .listAsNumber ∧
      Recording.after [] (t.foldM (recorded f)) =
        (.error .listAsNumber, [.atom "1", .list []]) ∧
      f (.list []) = .error .listAsNumber ∧ t.postorder.length = 4 := by
  intro f t
  obtain ⟨heffects, hfailing, -⟩ := fold_calls_postorder
  have ht : t.foldM f = .error .listAsNumber := by rfl
  have hcalls := heffects (Except Conversion.Error) Int f t
  obtain ⟨ls, hafter, -⟩ := hfailing Int Conversion.Error f t
  have hls : ls = [.atom "1", .list []] := congrArg Prod.snd hafter.symm
  rw [ht] at hcalls hafter
  refine ⟨inferInstance, ht, hcalls, ?_, rfl, rfl⟩
  rw [hafter, hls]

end SexpReader
