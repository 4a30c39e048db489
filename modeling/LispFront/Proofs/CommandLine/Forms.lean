import LispFront.CommandLine.Command
import LispFront.Proofs.Normalize.Agreement
import LispFront.Proofs.Normalize.Failures
import LispFront.Proofs.Object.Printing
import LispFront.Proofs.Source.Joining

/-!
# Programs form by form

What a run of the command leaves for a program, from the forest that the program spells.  Every form
is normalized for itself, so the results are a list with one entry for each form
(`answers_compile`), and what is written is a text for each entry (`reportForms_eq`).  A program
that is put together from two has the forms of the first and then those of the second, and so has
what a run leaves for it (`run_append_line`).  Normalizing up to the first failure gives the same trees as
long as nothing fails, and otherwise the first of the errors.
-/

namespace LispFront

/-! ## Forms of a list -/

namespace Normalizer

variable {nz : Normalizer} {h : Heap} {root : ListRef} {xs : List Syntax} {ds : List Datum}

theorem Ready.answers_mapM_attempt (hz : nz.Ready) (hall : h.UnfoldsAll xs ds) :
    (xs.mapM fun form => (nz.normalize form).attempt).Answers h (.ok (ds.map Datum.normalize))
      h := by
  induction ds generalizing xs with
  | nil =>
      rw [Heap.unfoldsAll_nil_right] at hall
      rw [hall]
      exact Exec.answers_pure [] h
  | cons d ds ih =>
      obtain ⟨x, rest, rfl, hx, hrest⟩ := hall
      rw [List.mapM_cons, List.map_cons]
      have hform := (hz.answers_normalize hx).attempt_ok d.normalize_ne_overflow
      refine hform.bind_ok ((ih hrest).bind_ok ?_)
      exact Exec.answers_pure _ h

/-- Every form of a program is normalized, whatever becomes of the others. -/
theorem Ready.answers_normalizeEach (hz : nz.Ready)
    (hroot : h.Unfolds (.list root) (.list ds)) :
    (nz.normalizeEach root).Answers h (.ok (ds.map Datum.normalize)) h :=
  (answers_tail 0).bind_ok (hz.answers_mapM_attempt (Heap.unfolds_list.mp hroot).2)

/-- A program is normalized up to the first form that fails. -/
theorem Ready.answers_normalizeProgram (hz : nz.Ready)
    (hroot : h.Unfolds (.list root) (.list ds)) :
    (nz.normalizeProgram root).Answers h (Datum.normalizeAll ds) h := by
  have hforms := hz.agreesBelow_normalize h (Datum.heights ds)
  refine (answers_tail 0).bind_ok ((Exec.answers_trace _ h).bind_ok ?_)
  exact hforms.mapM (Heap.unfolds_list.mp hroot).2 le_rfl

end Normalizer

/-- All forms normalize, and their trees are the trees of the program; or one fails, and the error
of the first that does is the error of the program. -/
theorem Datum.normalizeAll_eq (ds : List Datum) :
    (∃ trees, normalizeAll ds = .ok trees ∧ ds.map normalize = trees.map .ok) ∨
      ∃ e, normalizeAll ds = .error e ∧
        (ds.map normalize).find? (fun result => !result.isOk) = some (.error e) := by
  induction ds with
  | nil => exact .inl ⟨[], by rw [normalizeAll], rfl⟩
  | cons d ds ih =>
      rw [normalizeAll, List.map_cons]
      cases d.normalize with
      | error e => exact .inr ⟨e, rfl, rfl⟩
      | ok tree =>
          rcases ih with ⟨trees, hall, hmap⟩ | ⟨e, hall, hfind⟩
          · rw [hall, hmap]
            exact .inl ⟨tree :: trees, rfl, rfl⟩
          · rw [hall]
            exact .inr ⟨e, rfl, hfind⟩

namespace CommandLine

/-! ## What is written for the forms -/

/-- The texts of the trees. -/
def treeTexts (width : Nat) (color : Bool) : List (Except Error Ast) → String
  | [] => ""
  | .ok tree :: rest => tree.emit width color ++ treeTexts width color rest
  | .error _ :: rest => treeTexts width color rest

/-- The errors with the numbers of their forms, the first form having this number. -/
def failures : (number : Nat) → List (Except Error Ast) → List (Nat × Error)
  | _, [] => []
  | number, .ok _ :: rest => failures (number + 1) rest
  | number, .error e :: rest => (number, e) :: failures (number + 1) rest

/-- The line that reports a failure. -/
def errorLine (failure : Nat × Error) : String :=
  "Error in form " ++ toString failure.1 ++ ": " ++ failure.2.message ++ "\n"

/-- The lines that report failures. -/
def errorLines : List (Nat × Error) → String
  | [] => ""
  | failure :: rest => errorLine failure ++ errorLines rest

variable {width : Nat} {color : Bool} {results later : List (Except Error Ast)}

theorem reportForms_eq (width : Nat) (color : Bool) (number : Nat)
    (results : List (Except Error Ast)) :
    reportForms width color number results =
      (treeTexts width color results, errorLines (failures number results)) := by
  induction results generalizing number with
  | nil => rfl
  | cons result rest ih =>
      cases result with
      | ok tree => simp only [reportForms, ih, treeTexts, failures]
      | error e =>
          rw [reportForms, ih]
          rfl

theorem treeTexts_append (width : Nat) (color : Bool) (results later : List (Except Error Ast)) :
    treeTexts width color (results ++ later) =
      treeTexts width color results ++ treeTexts width color later := by
  induction results with
  | nil => simp only [List.nil_append, treeTexts, String.empty_append]
  | cons result rest ih =>
      cases result with
      | ok tree => simp only [List.cons_append, treeTexts, ih, String.append_assoc]
      | error e => simp only [List.cons_append, treeTexts, ih]

theorem failures_append (number : Nat) (results later : List (Except Error Ast)) :
    failures number (results ++ later) =
      failures number results ++ failures (number + results.length) later := by
  induction results generalizing number with
  | nil => rfl
  | cons result rest ih =>
      have hnext := ih (number + 1)
      rw [Nat.add_right_comm] at hnext
      cases result with
      | ok tree => exact hnext
      | error e => exact congrArg (List.cons (number, e)) hnext

/-- The forms of a program keep their errors when others stand before them, and get other
numbers. -/
theorem failures_add (number count : Nat) (results : List (Except Error Ast)) :
    failures (number + count) results =
      (failures number results).map fun failure => (failure.1 + count, failure.2) := by
  induction results generalizing number with
  | nil => rfl
  | cons result rest ih =>
      have hnext := ih (number + 1)
      rw [Nat.add_right_comm] at hnext
      cases result with
      | ok tree => exact hnext
      | error e => exact congrArg (List.cons (number + count, e)) hnext

theorem errorLines_append (failed more : List (Nat × Error)) :
    errorLines (failed ++ more) = errorLines failed ++ errorLines more := by
  induction failed with
  | nil => simp only [List.nil_append, errorLines, String.empty_append]
  | cons failure rest ih =>
      simp only [List.cons_append, errorLines, ih, String.append_assoc]

/-! ## What a run leaves for a program -/

/-- The object system of the command has nothing but its core. -/
theorem exists_answers_boot :
    ∃ sys : ObjectSystem, sys.registry.CoreIntact ∧
      ∀ h, (ObjectSystem.boot noMethods).Answers h (.ok sys) h := by
  have hboot : Registry.bootstrap.run .empty = (.ok (), Registry.coreOnly) := by
    unfold Registry.coreOnly
    rw [Registry.apply_bootstrap_of_none rfl]
    exact Registry.bootstrap_eq rfl
  refine ⟨⟨Registry.coreOnly, noMethods⟩, ?_, fun h => ?_⟩
  · dsimp only
    exact Registry.coreIntact_coreOnly
  unfold ObjectSystem.boot ObjectSystem.bootstrap
  rw [hboot]
  refine (Exec.answers_ofExcept (.ok ()) h).bind_ok ?_
  refine (Exec.answers_trace _ h).bind_ok ((Exec.answers_trace _ h).bind_ok ?_)
  exact (Exec.answers_trace _ h).bind_ok (Exec.answers_pure _ h)

variable {options : Options} {source : String} {ds : List Datum}

/-- A program that spells a forest is compiled into one result for each of its forms. -/
theorem answers_compile (hspells : Source.Spells ds source.toList) (printSyntax : Bool) (h : Heap) :
    ∃ h', (compile printSyntax source).Answers h
      (.ok (if printSyntax then some (Datum.list ds).toText else none, ds.map Datum.normalize))
      h' := by
  obtain ⟨sys, hintact, hboot⟩ := exists_answers_boot
  obtain ⟨h', hread, hroot, -⟩ := ObjectSystem.answers_read hintact.booted hspells h
  obtain ⟨nz, hz, hnew⟩ := Normalizer.exists_ready hintact.booted
  have hprint := ObjectSystem.answers_print hintact hroot
  have hresults (text : Option String) : (do
      let n ← Normalizer.new sys
      return (text, ← n.normalizeEach ⟨h.size⟩) : Exec (Option String × _)).Answers h'
        (.ok (text, ds.map Datum.normalize)) h' :=
    (hnew h').bind_ok ((hz.answers_normalizeEach hroot).bind_ok (Exec.answers_pure _ h'))
  refine ⟨h', ?_⟩
  unfold compile
  refine (hboot h).bind_ok (hread.bind_ok ?_)
  cases printSyntax with
  | true =>
      have hshown : (some <$> sys.print (.stx (.list ⟨h.size⟩))).Answers h'
          (.ok (some (Datum.list ds).toText)) h' := by
        rw [map_eq_pure_bind]
        exact hprint.bind_ok (Exec.answers_pure _ h')
      exact hshown.bind_ok (hresults _)
  | false => exact (Exec.answers_pure none h').bind_ok (hresults none)

/-- What a run leaves for a program that spells a forest. -/
theorem runProgram_of_spells (hspells : Source.Spells ds source.toList) (options : Options)
    (color : Bool) :
    let results := ds.map Datum.normalize
    runProgram options color source =
      ⟨if results.all (·.isOk) then 0 else 1,
        (if options.printSyntax then ";; " ++ (Datum.list ds).toText ++ "\n" else "") ++
          treeTexts options.width color results,
        errorLines (failures 1 results)⟩ := by
  intro results
  obtain ⟨h', hcompile⟩ := answers_compile hspells options.printSyntax .empty
  obtain ⟨log, hrun⟩ := hcompile #[]
  unfold runProgram
  rw [show Store.empty = ⟨Heap.empty, #[]⟩ from rfl, hrun]
  simp only [reportForms_eq]
  cases options.printSyntax <;> rfl

/-- Nothing but the error is left for a program that spells no forest. -/
theorem runProgram_of_faultAt {kind : ReadFault} {before after : List Char}
    (hsource : source.toList = before ++ after) (hfault : Source.FaultAt kind before after)
    (options : Options) (color : Bool) :
    runProgram options color source =
      abort (Error.read (Source.positionAfter before) kind).message := by
  obtain ⟨sys, hintact, hboot⟩ := exists_answers_boot
  obtain ⟨h', hread⟩ :=
    ObjectSystem.exists_answers_read_of_faultAt hintact.booted hsource hfault .empty
  have hcompile : (compile options.printSyntax source).Answers .empty
      (.error (.read (Source.positionAfter before) kind)) h' :=
    (hboot .empty).bind_ok hread.bind_error
  obtain ⟨log, hrun⟩ := hcompile #[]
  unfold runProgram
  rw [show Store.empty = ⟨Heap.empty, #[]⟩ from rfl, hrun]

/-- The same invocation for this program, be it a file or the standard input. -/
def Invocation.withProgram (invocation : Invocation) (source : String) : Invocation :=
  { invocation with standardInput := source, contentOf := fun _ => .ok source }

theorem run_withProgram {invocation : Invocation}
    (hrequest : request invocation.environment invocation.arguments = .ok options)
    (source : String) :
    run (invocation.withProgram source) =
      runProgram options (usesColor invocation.environment options.color) source := by
  have hsame : request (invocation.withProgram source).environment
      (invocation.withProgram source).arguments = .ok options := hrequest
  unfold run
  rw [hsame]
  cases hfile : options.file <;> simp only [hfile] <;> rfl

variable {invocation : Invocation} {ds₁ ds₂ : List Datum} {first second : String}

/-! ## Two programs one after the other -/

/-- What a run leaves for two programs with a line feed between them, both of which spell forests,
when the syntax is not printed. -/
theorem run_append_line
    (hrequest : request invocation.environment invocation.arguments = .ok options)
    (hprint : options.printSyntax = false) (hfirst : Source.Spells ds₁ first.toList)
    (hsecond : Source.Spells ds₂ second.toList) :
    let a := run (invocation.withProgram first)
    let b := run (invocation.withProgram second)
    let both := run (invocation.withProgram (first ++ "\n" ++ second))
    let color := usesColor invocation.environment options.color
    let failed₁ := failures 1 (ds₁.map Datum.normalize)
    let failed₂ := failures 1 (ds₂.map Datum.normalize)
    a.output = treeTexts options.width color (ds₁.map Datum.normalize) ∧
      b.output = treeTexts options.width color (ds₂.map Datum.normalize) ∧
      both.output = a.output ++ b.output ∧
      a.errors = errorLines failed₁ ∧ b.errors = errorLines failed₂ ∧
      both.errors = a.errors ++
        errorLines (failed₂.map fun failure => (failure.1 + ds₁.length, failure.2)) ∧
      both.exitCode = if a.exitCode = 1 ∨ b.exitCode = 1 then 1 else 0 := by
  intro a b both color failed₁ failed₂
  have hboth : Source.Spells (ds₁ ++ ds₂) (first ++ "\n" ++ second).toList := by
    rw [ObjectSystem.toList_append_line]
    exact hfirst.append_line hsecond
  have hrun₁ : a = _ := (run_withProgram hrequest first).trans (runProgram_of_spells hfirst _ _)
  have hrun₂ : b = _ := (run_withProgram hrequest second).trans (runProgram_of_spells hsecond _ _)
  have hrun : both = _ := (run_withProgram hrequest _).trans (runProgram_of_spells hboth _ _)
  rw [hprint] at hrun₁ hrun₂ hrun
  simp only [hrun₁, hrun₂, hrun, List.map_append, Bool.false_eq_true, if_false,
    String.empty_append]
  refine ⟨rfl, rfl, ?_, rfl, rfl, ?_, ?_⟩
  · rw [treeTexts_append]
  · rw [failures_append, List.length_map, failures_add, errorLines_append]
  · rw [List.all_append]
    cases (ds₁.map Datum.normalize).all (·.isOk) <;>
      cases (ds₂.map Datum.normalize).all (·.isOk) <;> decide

/-! ## Success and failure -/

/-- Results all of which are trees are a success, and the error of the first that is none is the
error of the program. -/
theorem exitCode_of_normalizeAll (ds : List Datum) :
    let results := ds.map Datum.normalize
    let exitCode : UInt32 := if results.all (·.isOk) then 0 else 1
    (exitCode = 0 ↔ ∃ trees, Datum.normalizeAll ds = .ok trees) ∧ (exitCode = 0 ∨ exitCode = 1) ∧
      (∀ trees, Datum.normalizeAll ds = .ok trees → trees = results.filterMap (·.toOption)) ∧
      ∀ e, Datum.normalizeAll ds = .error e →
        results.find? (fun result => !result.isOk) = some (.error e) := by
  intro results exitCode
  rcases Datum.normalizeAll_eq ds with ⟨trees, hall, hmap⟩ | ⟨e, hall, hfind⟩
  · have hok : results.all (·.isOk) = true := by
      simp only [results, hmap, List.all_map]
      exact List.all_eq_true.mpr fun _ _ => rfl
    have hcode : exitCode = 0 := if_pos hok
    refine ⟨⟨fun _ => ⟨trees, hall⟩, fun _ => hcode⟩, .inl hcode, fun trees' hall' => ?_,
      fun e hall' => ?_⟩
    · rw [hall] at hall'
      cases hall'
      simp [results, hmap, Except.toOption]
    · rw [hall] at hall'
      cases hall'
  · have hnot : results.all (·.isOk) = false := by
      have hmem := List.mem_of_find?_eq_some hfind
      exact List.all_eq_false.mpr ⟨_, hmem, Bool.false_ne_true⟩
    have hcode : exitCode = 1 := if_neg (by simp [hnot])
    refine ⟨⟨fun hzero => ?_, fun ⟨trees, hall'⟩ => ?_⟩, .inr hcode, fun trees hall' => ?_,
      fun e' hall' => ?_⟩
    · rw [hcode] at hzero
      cases hzero
    · rw [hall] at hall'
      cases hall'
    · rw [hall] at hall'
      cases hall'
    · rw [hall] at hall'
      cases hall'
      exact hfind

/-! ## Runs of the command -/

/-- What a run leaves for a program, in terms of reading and normalizing in any booted system.

* Two programs that both read, with a line feed between them: the trees of the first are written and
  then those of the second, and so are the errors, with higher numbers for the forms of the second;
  the run fails when one of them fails.
* A program that does not read: nothing is written but the error, and the run fails.
* A program that reads: the trees of the forms that normalize are written in order, after the
  program itself if its syntax is to be printed, and the errors of the others with their numbers.
  The run succeeds exactly when normalizing up to the first failure does.  Then its trees are those
  of the forms that normalize, and otherwise its error is that of the first form that does not. -/
theorem run_treats_forms_alone {sys : ObjectSystem} (hsys : sys.registry.Booted)
    (hrequest : request invocation.environment invocation.arguments = .ok options) :
    let color := usesColor invocation.environment options.color
    ∃ nz : Normalizer,
      (∀ s, ∃ log, (Normalizer.new sys).runFrom s = some (.ok nz, ⟨s.heap, log⟩)) ∧
      (options.printSyntax = false → ∀ first second s₁ s₂ root₁ root₂ s₁' s₂',
        (sys.read first).runFrom s₁ = some (.ok root₁, s₁') →
        (sys.read second).runFrom s₂ = some (.ok root₂, s₂') →
        let a := run (invocation.withProgram first)
        let b := run (invocation.withProgram second)
        let both := run (invocation.withProgram (first ++ "\n" ++ second))
        ∃ results₁ log₁ results₂ log₂,
          (nz.normalizeEach root₁).runFrom s₁' = some (.ok results₁, ⟨s₁'.heap, log₁⟩) ∧
          (nz.normalizeEach root₂).runFrom s₂' = some (.ok results₂, ⟨s₂'.heap, log₂⟩) ∧
          a.output = treeTexts options.width color results₁ ∧
          b.output = treeTexts options.width color results₂ ∧
          both.output = a.output ++ b.output ∧
          a.errors = errorLines (failures 1 results₁) ∧
          b.errors = errorLines (failures 1 results₂) ∧
          both.errors = a.errors ++ errorLines ((failures 1 results₂).map
            fun failure => (failure.1 + s₁'.heap.length root₁, failure.2)) ∧
          both.exitCode = if a.exitCode = 1 ∨ b.exitCode = 1 then 1 else 0) ∧
      ∀ source s,
        let outcome := run (invocation.withProgram source)
        (∀ e s', (sys.read source).runFrom s = some (.error e, s') →
          outcome.output = "" ∧ outcome.exitCode = 1) ∧
        ∀ root s', (sys.read source).runFrom s = some (.ok root, s') →
          ∃ results log result log' text,
            (nz.normalizeEach root).runFrom s' = some (.ok results, ⟨s'.heap, log⟩) ∧
            (nz.normalizeProgram root).runFrom s' = some (result, ⟨s'.heap, log'⟩) ∧
            s'.heap.toText (.list root) = some (.ok text) ∧
            outcome.output = (if options.printSyntax then ";; " ++ text ++ "\n" else "") ++
              treeTexts options.width color results ∧
            outcome.errors = errorLines (failures 1 results) ∧
            (outcome.exitCode = 0 ↔ ∃ trees, result = .ok trees) ∧
            (outcome.exitCode = 0 ∨ outcome.exitCode = 1) ∧
            (∀ trees, result = .ok trees → trees = results.filterMap (·.toOption)) ∧
            ∀ e, result = .error e →
              results.find? (fun result => !result.isOk) = some (.error e) := by
  intro color
  obtain ⟨nz, hz, hnew⟩ := Normalizer.exists_ready hsys
  refine ⟨nz, fun s => hnew s.heap s.log, fun hprint => ?_, fun source s => ⟨?_, ?_⟩⟩
  · intro first second s₁ s₂ root₁ root₂ s₁' s₂' hread₁ hread₂ a b both
    obtain ⟨ds₁, hspells₁, hroot₁⟩ := ObjectSystem.exists_spells_of_run hsys hread₁
    obtain ⟨ds₂, hspells₂, hroot₂⟩ := ObjectSystem.exists_spells_of_run hsys hread₂
    obtain ⟨log₁, heach₁⟩ := hz.answers_normalizeEach hroot₁ s₁'.log
    obtain ⟨log₂, heach₂⟩ := hz.answers_normalizeEach hroot₂ s₂'.log
    refine ⟨_, log₁, _, log₂, heach₁, heach₂, ?_⟩
    rw [hroot₁.length_eq]
    exact run_append_line hrequest hprint hspells₁ hspells₂
  · intro e s' hread
    obtain ⟨kind, before, after, hsource, hfault, -⟩ :=
      ObjectSystem.exists_faultAt_of_run hsys hread
    rw [run_withProgram hrequest, runProgram_of_faultAt hsource hfault]
    exact ⟨rfl, rfl⟩
  · intro root s' hread
    obtain ⟨ds, hspells, hroot⟩ := ObjectSystem.exists_spells_of_run hsys hread
    obtain ⟨log, heach⟩ := hz.answers_normalizeEach hroot s'.log
    obtain ⟨log', hprogram⟩ := hz.answers_normalizeProgram hroot s'.log
    refine ⟨_, log, _, log', _, heach, hprogram, hroot.toText_eq, ?_⟩
    rw [run_withProgram hrequest, runProgram_of_spells hspells]
    exact ⟨rfl, rfl, exitCode_of_normalizeAll ds⟩

/-- The errors of a program with two forms, the second of which has a string among its arguments. -/
private theorem failures_sampleForest :
    failures 1 (ObjectSystem.sampleForest.map Datum.normalize) =
      [(2, .identity "syntax symbol or list" "syntax string \"c\\n\"")] := by
  decide +kernel

/-- A string is no form, so that the second and the fourth form of this program fail. -/
theorem run_sampleForest_twice :
    let invocation : Invocation :=
      ⟨["--width", "20", "--color", "always"], fun _ => none, "", fun _ => .error ""⟩
    let source := "a(b\"c\\n\");"
    let once := run (invocation.withProgram source)
    let twice := run (invocation.withProgram (source ++ "\n" ++ source))
    ObjectSystem.extendedSystem.registry.Booted ∧
      request invocation.environment invocation.arguments = .ok ⟨false, 20, .always, none⟩ ∧
      (∃ root s', (ObjectSystem.extendedSystem.read source).runFrom .empty =
        some (.ok root, s')) ∧
      twice.errors =
        "Error in form 2: expected syntax symbol or list, found syntax string \"c\\n\"\n" ++
        "Error in form 4: expected syntax symbol or list, found syntax string \"c\\n\"\n" ∧
      twice.output = once.output ++ once.output ∧ twice.exitCode = 1 := by
  intro invocation source once twice
  have hbooted := ObjectSystem.booted_extendedSystem
  have hrequest : request invocation.environment invocation.arguments =
      .ok ⟨false, 20, .always, none⟩ := by decide +kernel
  obtain ⟨root, s', hread, hroot⟩ :=
    ObjectSystem.exists_run_of_spells hbooted .empty ObjectSystem.spells_sampleForest
  obtain ⟨nz, hnew, hline, hforms⟩ := run_treats_forms_alone hbooted hrequest
  obtain ⟨results, log, results', log', heach, heach', -, -, houtput, hfailed, -, herrors,
    hcode⟩ := hline rfl _ _ _ _ _ _ _ _ hread hread
  -- The normalizer is the one whose results are known.
  obtain ⟨nz', hz, hnew'⟩ := Normalizer.exists_ready hbooted
  obtain ⟨hsame, -⟩ := Exec.Answers.unique (fun log => hnew ⟨.empty, log⟩) (hnew' .empty)
  cases hsame
  obtain ⟨log'', heach''⟩ := hz.answers_normalizeEach hroot s'.log
  rw [heach''] at heach heach'
  cases heach
  cases heach'
  rw [hfailed, show s'.heap.length root = 2 from hroot.length_eq, failures_sampleForest] at herrors
  have honce : once.exitCode = 1 := by
    have hspells := ObjectSystem.spells_sampleForest
    rw [show once = _ from
      (run_withProgram hrequest source).trans (runProgram_of_spells hspells _ _)]
    show (if (ObjectSystem.sampleForest.map Datum.normalize).all (·.isOk) then 0 else 1 : UInt32) = 1
    decide +kernel
  refine ⟨hbooted, hrequest, ⟨root, s', hread⟩, herrors.trans (by decide +kernel), houtput, ?_⟩
  rw [hcode, if_pos (.inl honce)]

end CommandLine
end LispFront
