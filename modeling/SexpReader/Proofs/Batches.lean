import SexpReader.CommandLine
import SexpReader.Proofs.Run

/-!
# Batches of sources

Sources are parsed one by one, and each of them comes to what it comes to alone. The report on
sources that can be read lists their trees and their failures in the order of the sources, and
writes each of them to its own channel. The report on two batches is the one on the first followed
by the one on the second, and a source that cannot be read leaves just what came before it.

The same is written here as a loop. It keeps the trees and the failures found so far and writes to
the channels as it goes, and what has been written stays if reading a source ends it.
-/

namespace SexpReader

/-- A source that can be read. -/
def Source.readable (p : Text × Bytes) : Source := ⟨p.1, .ok p.2⟩

/-- A source can be read, or there is an error instead. -/
theorem Source.readable_or_error (s : Source) :
    (∃ p, s = readable p) ∨ ∃ name e, s = ⟨name, .error e⟩ := by
  obtain ⟨name, content⟩ := s
  cases content with
  | ok buffer => exact .inl ⟨(name, buffer), rfl⟩
  | error e => exact .inr ⟨name, e, rfl⟩

/-- What has been written to the two channels. -/
structure Channels where
  output : Text
  complaints : Text

/-- The trees and the failures found so far, each failure with the name of its source. -/
abbrev Findings := List Node × List (Text × Failure)

/-- A computation that writes to the channels and may be ended by a source that cannot be read. -/
abbrev Batch (α : Type) := EStateM FileError Channels α

namespace Batch

/-- Writes a line to the standard output. -/
def tell (line : Text) : Batch Unit := modify fun ch => { ch with output := ch.output ++ line }

/-- Writes a line to the standard error output. -/
def complain (line : Text) : Batch Unit :=
  modify fun ch => { ch with complaints := ch.complaints ++ line }

/-- Reads and parses one source. The tree or the failure goes to those that were found before. -/
def turn (d : Dialect) (found : Findings) (s : Source) : Batch Findings := do
  let buffer ← match s.content with
    | .ok buffer => pure buffer
    | .error e => throw e
  match parseBytes d buffer with
  | .error failure =>
    complain (s.name ++ ": " ++ failure.message ++ "\n")
    return (found.1, found.2 ++ [(s.name, failure)])
  | .ok node =>
    tell (node.print false ++ "\n")
    return (found.1 ++ [node], found.2)

/-- Reads and parses one source after the other. -/
def parse (d : Dialect) (ss : List Source) : Batch Findings :=
  ss.foldlM (turn d) ([], [])

end Batch

namespace Report

variable {d : Dialect}

/-- The trees that the sources come to, one by one. -/
def treesOf (d : Dialect) (l : List (Text × Bytes)) : List Node :=
  l.filterMap fun p => (parseBytes d p.2).toOption

/-- The failures that the sources come to, one by one, each with the name of its source. -/
def failuresOf (d : Dialect) (l : List (Text × Bytes)) : List (Text × Failure) :=
  l.filterMap fun p =>
    match parseBytes d p.2 with
    | .error f => some (p.1, f)
    | .ok _ => none

/-- The line that is written for a tree. -/
def treeLine (n : Node) : Text := n.print false ++ "\n"

/-- The line that is written for a failure. -/
def failureLine (p : Text × Failure) : Text := p.1 ++ ": " ++ p.2.message ++ "\n"

theorem treesOf_cons (d : Dialect) (p : Text × Bytes) (l : List (Text × Bytes)) :
    treesOf d (p :: l) = treesOf d [p] ++ treesOf d l :=
  List.filterMap_append (l := [p])

theorem failuresOf_cons (d : Dialect) (p : Text × Bytes) (l : List (Text × Bytes)) :
    failuresOf d (p :: l) = failuresOf d [p] ++ failuresOf d l :=
  List.filterMap_append (l := [p])

/-- No source is lost, and none is counted twice. -/
theorem length_treesOf_add_length_failuresOf (d : Dialect) (l : List (Text × Bytes)) :
    (treesOf d l).length + (failuresOf d l).length = l.length := by
  induction l with
  | nil => rfl
  | cons p l ih =>
      have hone : (treesOf d [p]).length + (failuresOf d [p]).length = 1 := by
        unfold treesOf failuresOf
        cases hp : parseBytes d p.2 <;> simp [hp, Except.toOption]
      rw [treesOf_cons, failuresOf_cons, List.length_append, List.length_append, List.length_cons]
      omega

/-! ## One source -/

theorem ofSources_readable_cons (d : Dialect) (tracing : Bool) (p : Text × Bytes)
    (rest : List Source) :
    ofSources d tracing (Source.readable p :: rest) =
      (ofBytes d tracing p.1 p.2).append (ofSources d tracing rest) := rfl

theorem ofSources_error_cons (d : Dialect) (tracing : Bool) (name : Text) (e : FileError)
    (rest : List Source) :
    ofSources d tracing (⟨name, .error e⟩ :: rest) = { empty with stopped := some e } := rfl

/-- The report on one source, if there is no trace. -/
theorem ofBytes_eq (d : Dialect) (p : Text × Bytes) :
    ofBytes d false p.1 p.2 = ⟨(treesOf d [p]).flatMap treeLine,
      (failuresOf d [p]).flatMap failureLine, treesOf d [p], failuresOf d [p], none⟩ := by
  have htrace : ((Cursor.ofBytes p.2).parse d false).trace = [] := by
    rw [Cursor.parse_quiet]
    rfl
  rw [ofBytes, htrace, outcome_parse_ofBytes, treesOf, failuresOf]
  cases hp : parseBytes d p.2 with
  | ok n => simp [hp, treeLine, Except.toOption]
  | error f => simp [hp, failureLine, Except.toOption]

/-- With a trace, the same failures are found. -/
theorem failures_ofBytes (d : Dialect) (tracing : Bool) (p : Text × Bytes) :
    (ofBytes d tracing p.1 p.2).failures = failuresOf d [p] := by
  rw [ofBytes, outcome_parse_ofBytes, failuresOf]
  cases hp : parseBytes d p.2 <;> simp [hp]

/-! ## All of them -/

/-- The report on two batches. -/
theorem ofSources_append (d : Dialect) (tracing : Bool) (ss more : List Source) :
    ofSources d tracing (ss ++ more) =
      if (ofSources d tracing ss).stopped.isSome then ofSources d tracing ss
      else (ofSources d tracing ss).append (ofSources d tracing more) := by
  induction ss with
  | nil => rfl
  | cons s ss ih =>
      obtain ⟨p, rfl⟩ | ⟨name, e, rfl⟩ := s.readable_or_error
      · rw [List.cons_append, ofSources_readable_cons, ofSources_readable_cons, ih]
        change _ = if (ofSources d tracing ss).stopped.isSome then _ else _
        split
        · rfl
        · simp only [append, List.append_assoc]
      · rfl

/-- The report on sources that can be read. -/
theorem ofSources_readable (d : Dialect) (l : List (Text × Bytes)) :
    ofSources d false (l.map Source.readable) = ⟨(treesOf d l).flatMap treeLine,
      (failuresOf d l).flatMap failureLine, treesOf d l, failuresOf d l, none⟩ := by
  induction l with
  | nil => rfl
  | cons p l ih =>
      rw [List.map_cons, ofSources_readable_cons, ih, ofBytes_eq, treesOf_cons d p l,
        failuresOf_cons d p l, List.flatMap_append, List.flatMap_append]
      rfl

theorem failures_ofSources_readable (d : Dialect) (tracing : Bool) (l : List (Text × Bytes)) :
    (ofSources d tracing (l.map Source.readable)).failures = failuresOf d l ∧
      (ofSources d tracing (l.map Source.readable)).stopped = none := by
  induction l with
  | nil => exact ⟨rfl, rfl⟩
  | cons p l ih =>
      rw [List.map_cons, ofSources_readable_cons, append, failures_ofBytes, ih.1, ih.2,
        failuresOf_cons d p l]
      exact ⟨rfl, rfl⟩

/-- A source that cannot be read leaves the report on the sources before it. -/
theorem ofSources_unreadable (d : Dialect) (tracing : Bool) (l : List (Text × Bytes)) (name : Text)
    (e : FileError) (rest : List Source) :
    ofSources d tracing (l.map Source.readable ++ ⟨name, .error e⟩ :: rest) =
      { ofSources d tracing (l.map Source.readable) with stopped := some e } := by
  rw [ofSources_append, (failures_ofSources_readable d tracing l).2, ofSources_error_cons]
  simp [append, empty]

end Report

/-! ## The loop -/

namespace Batch

/-- What the loop comes to, if it comes to the report `r` from here. -/
def resultOf (found : Findings) (ch : Channels) (r : Report) :
    EStateM.Result FileError Channels Findings :=
  match r.stopped with
  | none => .ok (found.1 ++ r.trees, found.2 ++ r.failures)
      ⟨ch.output ++ r.output, ch.complaints ++ r.complaints⟩
  | some e => .error e ⟨ch.output ++ r.output, ch.complaints ++ r.complaints⟩

theorem resultOf_append (found : Findings) (ch : Channels) (a b : Report) :
    resultOf found ch (a.append b) =
      resultOf (found.1 ++ a.trees, found.2 ++ a.failures)
        ⟨ch.output ++ a.output, ch.complaints ++ a.complaints⟩ b := by
  unfold resultOf Report.append
  cases b.stopped <;> simp only [List.append_assoc]

theorem turn_readable (d : Dialect) (found : Findings) (ch : Channels) (p : Text × Bytes) :
    (turn d found (.readable p)).run ch = resultOf found ch (.ofBytes d false p.1 p.2) := by
  rw [Report.ofBytes_eq, Report.treesOf, Report.failuresOf, turn, Source.readable]
  cases hp : parseBytes d p.2 with
  | ok n =>
      simp only [pure_bind, hp, resultOf, List.filterMap_cons, List.filterMap_nil, Except.toOption,
        List.flatMap_singleton, List.flatMap_nil, List.append_nil]
      rfl
  | error f =>
      simp only [pure_bind, hp, resultOf, List.filterMap_cons, List.filterMap_nil, Except.toOption,
        List.flatMap_singleton, List.flatMap_nil, List.append_nil]
      rfl

theorem turn_error (d : Dialect) (found : Findings) (ch : Channels) (name : Text)
    (e : FileError) : (turn d found ⟨name, .error e⟩).run ch = .error e ch := rfl

/-- The loop finds and writes what the report says. -/
theorem foldlM_turn (d : Dialect) (found : Findings) (ch : Channels) (ss : List Source) :
    (ss.foldlM (turn d) found).run ch = resultOf found ch (.ofSources d false ss) := by
  induction ss generalizing found ch with
  | nil => simp [resultOf, Report.ofSources, Report.empty]
  | cons s ss ih =>
      rw [List.foldlM_cons, EStateM.run_bind]
      obtain ⟨p, rfl⟩ | ⟨name, e, rfl⟩ := s.readable_or_error
      · have hstopped : (Report.ofBytes d false p.1 p.2).stopped = none := by
          rw [Report.ofBytes_eq]
        rw [turn_readable, Report.ofSources_readable_cons, resultOf_append, ← ih, resultOf,
          hstopped]
      · rw [turn_error, Report.ofSources_error_cons]
        simp [resultOf, Report.empty]

/-- From the start, the loop finds and writes the report and nothing else. -/
theorem run_parse (d : Dialect) (ss : List Source) :
    (parse d ss).run ⟨[], []⟩ =
      match (Report.ofSources d false ss).stopped with
      | none => .ok ((Report.ofSources d false ss).trees, (Report.ofSources d false ss).failures)
          ⟨(Report.ofSources d false ss).output, (Report.ofSources d false ss).complaints⟩
      | some e => .error e
          ⟨(Report.ofSources d false ss).output, (Report.ofSources d false ss).complaints⟩ :=
  foldlM_turn d ([], []) ⟨[], []⟩ ss

end Batch

/-! ## The command line -/

namespace Report

variable {d : Dialect} {tracing : Bool} {ss : List Source}

theorem exists_readable (h : ∀ s ∈ ss, ∃ b, s.content = .ok b) :
    ∃ l : List (Text × Bytes), ss = l.map Source.readable := by
  induction ss with
  | nil => exact ⟨[], rfl⟩
  | cons s ss ih =>
      obtain ⟨⟨b, hb⟩, hss⟩ := List.forall_mem_cons.1 h
      obtain ⟨l, rfl⟩ := ih hss
      refine ⟨(s.name, b) :: l, ?_⟩
      rw [List.map_cons, Source.readable, ← hb]

theorem failuresOf_eq_nil_iff (l : List (Text × Bytes)) :
    failuresOf d l = [] ↔ ∀ p ∈ l, ∃ n, parseBytes d p.2 = .ok n := by
  rw [failuresOf, List.filterMap_eq_nil_iff]
  refine forall₂_congr fun p _ => ?_
  cases parseBytes d p.2 with
  | ok n => exact iff_of_true rfl ⟨n, rfl⟩
  | error f => exact iff_of_false nofun nofun

/-- Nothing fails if every source parses. -/
theorem failures_eq_nil_iff (h : ∀ s ∈ ss, ∃ b, s.content = .ok b) :
    (ofSources d tracing ss).failures = [] ↔
      ∀ s ∈ ss, ∃ b n, s.content = .ok b ∧ parseBytes d b = .ok n := by
  obtain ⟨l, rfl⟩ := exists_readable h
  rw [(failures_ofSources_readable d tracing l).1, failuresOf_eq_nil_iff, List.forall_mem_map]
  refine forall₂_congr fun p _ => ?_
  constructor
  · rintro ⟨n, hn⟩
    exact ⟨p.2, n, rfl, hn⟩
  · rintro ⟨b, n, hb, hn⟩
    cases hb
    exact ⟨n, hn⟩

theorem failures_ne_nil_iff (h : ∀ s ∈ ss, ∃ b, s.content = .ok b) :
    (ofSources d tracing ss).failures ≠ [] ↔
      ∃ s ∈ ss, ∃ b f, s.content = .ok b ∧ parseBytes d b = .error f := by
  rw [Ne, failures_eq_nil_iff h]
  constructor
  · intro hfail
    by_contra hnone
    refine hfail fun s hs => ?_
    obtain ⟨b, hb⟩ := h s hs
    cases hparse : parseBytes d b with
    | ok n => exact ⟨b, n, hb, hparse⟩
    | error f => exact (hnone ⟨s, hs, b, f, hb, hparse⟩).elim
  · rintro ⟨s, hs, b, f, hb, hf⟩ hall
    obtain ⟨b', n, hb', hn⟩ := hall s hs
    cases hb.symm.trans hb'
    cases hf.symm.trans hn

/-- The exit code tells whether something failed. -/
theorem ending_of_not_stopped {r : Report} (h : r.stopped = none) :
    (r.response.ending = .ok 1 ↔ r.failures ≠ []) ∧
      (r.response.ending = .ok 0 ↔ r.failures = []) := by
  have hending : r.response.ending = .ok (if r.failures.isEmpty then 0 else 1) := by
    rw [response, h]
  rw [hending]
  cases r.failures with
  | nil => decide
  | cons p ps => exact ⟨iff_of_true rfl (List.cons_ne_nil p ps), iff_of_false (by simp) (by simp)⟩

end Report

namespace Options

variable {o : Options} {fs : FileSystem} {paths : List Path}

/-- The file at a path. -/
def fileAt (fs : FileSystem) (p : Path) : Source := ⟨p.print, fs.read p⟩

theorem sources_eq (hpaths : o.expandedPaths fs.home? = .ok paths) (hne : paths ≠ [])
    (stdin : Option Bytes) : o.sources fs stdin = .ok (paths.map (fileAt fs)) := by
  rw [sources, hpaths]
  have hsources : sourcesOf paths (paths.map fs.read) stdin = paths.map (fileAt fs) := by
    cases paths with
    | nil => exact (hne rfl).elim
    | cons p paths =>
        rw [sourcesOf, List.zipWith_map_right, List.zipWith_self]
        · rfl
        · nofun
        · nofun
  exact congrArg Except.ok hsources

/-- If no fuzzer drives the program, the response is that to the report on the files. -/
theorem respond_eq (hfuzz : o.fuzz = false) (hpaths : o.expandedPaths fs.home? = .ok paths)
    (hne : paths ≠ []) (stdin : Option Bytes) (fuzzer : Option Turns) :
    o.respond fuzzer (o.sources fs stdin) = (o.report (paths.map (fileAt fs))).response := by
  unfold respond
  rw [hfuzz, sources_eq hpaths hne stdin]
  rfl

/-- If every file can be read, the exit code tells whether one of them fails. -/
theorem ending_of_readable (hfuzz : o.fuzz = false) (hpaths : o.expandedPaths fs.home? = .ok paths)
    (hne : paths ≠ []) (stdin : Option Bytes) (fuzzer : Option Turns)
    (hread : ∀ p ∈ paths, ∃ b, fs.read p = .ok b) :
    let ending := (o.respond fuzzer (o.sources fs stdin)).ending
    (ending = .ok 1 ↔
        ∃ p ∈ paths, ∃ b f, fs.read p = .ok b ∧ parseBytes o.dialect b = .error f) ∧
      (ending = .ok 0 ↔
        ∀ p ∈ paths, ∃ b n, fs.read p = .ok b ∧ parseBytes o.dialect b = .ok n) := by
  intro ending
  have hfiles : ∀ s ∈ paths.map (fileAt fs), ∃ b, s.content = .ok b := by
    rw [List.forall_mem_map]
    exact hread
  have hstopped : (o.report (paths.map (fileAt fs))).stopped = none := by
    obtain ⟨l, hl⟩ := Report.exists_readable hfiles
    rw [report, hl]
    exact (Report.failures_ofSources_readable _ _ l).2
  have hending : ending = (o.report (paths.map (fileAt fs))).response.ending :=
    congrArg Response.ending (respond_eq hfuzz hpaths hne stdin fuzzer)
  obtain ⟨hone, hzero⟩ := Report.ending_of_not_stopped hstopped
  rw [hending, hone, hzero, report, Report.failures_ne_nil_iff hfiles,
    Report.failures_eq_nil_iff hfiles, List.forall_mem_map]
  simp only [List.mem_map, exists_exists_and_eq_and]
  exact ⟨Iff.rfl, Iff.rfl⟩

/-- A file that cannot be read ends the program. -/
theorem ending_of_unreadable (hfuzz : o.fuzz = false)
    (hpaths : o.expandedPaths fs.home? = .ok paths) (stdin : Option Bytes)
    (fuzzer : Option Turns) {before after : List Path} {p : Path} {e : FileError}
    (hsplit : paths = before ++ p :: after) (hbefore : ∀ q ∈ before, ∃ b, fs.read q = .ok b)
    (hp : fs.read p = .error e) :
    (o.respond fuzzer (o.sources fs stdin)).ending = .error (.file e) := by
  have hne : paths ≠ [] := by
    rw [hsplit]
    exact List.append_ne_nil_of_right_ne_nil _ (List.cons_ne_nil _ _)
  have hfiles : ∀ s ∈ before.map (fileAt fs), ∃ b, s.content = .ok b := by
    rw [List.forall_mem_map]
    exact hbefore
  obtain ⟨l, hl⟩ := Report.exists_readable hfiles
  have hstopped : (o.report (paths.map (fileAt fs))).stopped = some e := by
    rw [report, hsplit, List.map_append, List.map_cons, hl, fileAt, hp, Report.ofSources_unreadable]
  rw [respond_eq hfuzz hpaths hne stdin fuzzer, Report.response, hstopped]

/-- A program that a fuzzer drives never tells by its exit code that something failed: it ends as if
all were well unless it is interrupted. -/
theorem ending_of_fuzz (hfuzz : o.fuzz = true) (fuzzer : Option Turns)
    (sources : Except Interruption (List Source)) :
    (o.respond fuzzer sources).ending = .ok 0 ∨
      ∃ e, (o.respond fuzzer sources).ending = .error e := by
  unfold respond
  rw [if_pos hfuzz]
  cases fuzzer with
  | none => exact .inr ⟨_, rfl⟩
  | some turns =>
      dsimp only
      induction turns with
      | nil => exact .inl rfl
      | cons ss turns ih =>
          rw [List.foldr_cons, Response.andThen]
          cases hturn : (o.turn ss).ending with
          | error e => exact .inr ⟨e, hturn⟩
          | ok code => exact ih

end Options

/-- Sources are parsed independently of each other, and nothing is lost. The loop over the sources
comes to the report on them, or to the error that stopped it with just what the report has written.
If all of them can be read, the trees and the failures are those of the sources one by one, each
source gives one or the other, and each has its line in its channel. Two batches come to the two
reports, one after the other, and a source that cannot be read leaves the report on the sources
before it. If no fuzzer drives the program, its exit code tells whether one of the files at the paths
failed to parse, and a file that cannot be read ends it. -/
theorem batch_of_independent_sources (d : Dialect) :
    (∀ ss : List Source, let r := Report.ofSources d false ss
      (Batch.parse d ss).run ⟨[], []⟩ =
        match r.stopped with
        | none => .ok (r.trees, r.failures) ⟨r.output, r.complaints⟩
        | some e => .error e ⟨r.output, r.complaints⟩) ∧
    (∀ l : List (Text × Bytes), let r := Report.ofSources d false (l.map Source.readable)
      r.stopped = none ∧
      r.trees = l.filterMap (fun p => (parseBytes d p.2).toOption) ∧
      r.failures = l.filterMap (fun p =>
        match parseBytes d p.2 with
        | .error f => some (p.1, f)
        | .ok _ => none) ∧
      r.trees.length + r.failures.length = l.length ∧
      r.output = r.trees.flatMap (fun n => (n.print false ++ "\n" : Text)) ∧
      r.complaints = r.failures.flatMap
        (fun p => (p.1 ++ ": " ++ p.2.message ++ "\n" : Text))) ∧
    (∀ ss more : List Source, let r := Report.ofSources d false ss
      Report.ofSources d false (ss ++ more) =
        if r.stopped.isSome then r else r.append (Report.ofSources d false more)) ∧
    (∀ (l : List (Text × Bytes)) (name : Text) (e : FileError) (rest : List Source),
      Report.ofSources d false (l.map Source.readable ++ ⟨name, .error e⟩ :: rest) =
        { Report.ofSources d false (l.map Source.readable) with stopped := some e }) ∧
    ∀ (o : Options) (fs : FileSystem) (stdin : Option Bytes) (fuzzer : Option Turns)
      (paths : List Path),
      o.fuzz = false → o.expandedPaths fs.home? = .ok paths → paths ≠ [] →
      let response := o.respond fuzzer (o.sources fs stdin)
      ((∀ p ∈ paths, ∃ b, fs.read p = .ok b) →
        (response.ending = .ok 1 ↔
          ∃ p ∈ paths, ∃ b f, fs.read p = .ok b ∧ parseBytes o.dialect b = .error f) ∧
        (response.ending = .ok 0 ↔
          ∀ p ∈ paths, ∃ b n, fs.read p = .ok b ∧ parseBytes o.dialect b = .ok n)) ∧
      (∀ before p after e, paths = before ++ p :: after →
        (∀ q ∈ before, ∃ b, fs.read q = .ok b) → fs.read p = .error e →
        response.ending = .error (.file e)) ∧
      (o.debug = false →
        let r := Report.ofSources o.dialect false (paths.map fun p => ⟨p.print, fs.read p⟩)
        response.output = r.output ∧ response.complaints = r.complaints) := by
  refine ⟨Batch.run_parse d, ?_, Report.ofSources_append d false,
    Report.ofSources_unreadable d false, ?_⟩
  · intro l r
    have hr : r = _ := Report.ofSources_readable d l
    rw [hr]
    exact ⟨rfl, rfl, rfl, Report.length_treesOf_add_length_failuresOf d l, rfl, rfl⟩
  · intro o fs stdin fuzzer paths hfuzz hpaths hne response
    refine ⟨Options.ending_of_readable hfuzz hpaths hne stdin fuzzer,
      fun before p after e => Options.ending_of_unreadable hfuzz hpaths stdin fuzzer, ?_⟩
    intro hdebug r
    have hresponse : response = _ := Options.respond_eq hfuzz hpaths hne stdin fuzzer
    rw [hresponse, Options.report, hdebug]
    exact ⟨rfl, rfl⟩

/-- Three files, one of which cannot be parsed. With another path between them at which there is
nothing, the third is not read. -/
theorem batch_with_failure_and_missing_file :
    let fs : FileSystem := ⟨⟨[(["a"], [0x61]), (["b"], [0x28]), (["c"], [0x29])], []⟩, ⟨[], []⟩, []⟩
    let all : List Path := [⟨[], ["a"]⟩, ⟨[], ["b"]⟩, ⟨[], ["c"]⟩]
    let gap : List Path := [⟨[], ["a"]⟩, ⟨[], ["b"]⟩, ⟨[], ["x"]⟩, ⟨[], ["c"]⟩]
    let o (strict : Bool) (paths : List Path) : Options := ⟨strict, false, false, paths⟩
    (∀ p ∈ all, ∃ b, fs.read p = .ok b) ∧
      ((o false all).respond none ((o false all).sources fs none)).ending = .ok 1 ∧
      ((o true gap).respond none ((o true gap).sources fs none)).ending =
        .error (.file (.notFound "x")) := by
  intro fs all gap o
  have hread : ∀ p ∈ all, ∃ b, fs.read p = .ok b := by
    rw [List.forall_mem_cons, List.forall_mem_cons, List.forall_mem_singleton]
    exact ⟨⟨_, rfl⟩, ⟨_, rfl⟩, ⟨_, rfl⟩⟩
  have hbefore : ∀ p ∈ [Path.mk [] ["a"], ⟨[], ["b"]⟩], ∃ b, fs.read p = .ok b := by
    rw [List.forall_mem_cons, List.forall_mem_singleton]
    exact ⟨⟨_, rfl⟩, ⟨_, rfl⟩⟩
  have hcli := (batch_of_independent_sources .standard).2.2.2.2
  refine ⟨hread, ?_, ?_⟩
  · exact ((hcli (o false all) fs none none all rfl rfl nofun).1 hread).1.2
      ⟨_, .tail _ (.head _), _, _, rfl, rfl⟩
  · exact (hcli (o true gap) fs none none gap rfl rfl nofun).2.1 _ _ _ _ rfl hbefore rfl

end SexpReader
