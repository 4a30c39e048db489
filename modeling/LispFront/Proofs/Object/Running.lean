import LispFront.Object.Run

/-!
# Running a computation

What each primitive computation does to a store, and `Exec.Answers`, which forgets the log: from a
heap, a computation gives a result and leaves a heap, whatever was recorded before.
-/

namespace LispFront
namespace Exec

variable {α β : Type}

/-! ## Primitive computations -/

@[simp] theorem runFrom_get (s : Store) : (get : Exec Store).runFrom s = some (.ok s, s) := rfl

@[simp] theorem runFrom_trace (e : Event) (s : Store) :
    (trace e).runFrom s = some (.ok (), ⟨s.heap, s.log.push e⟩) := rfl

@[simp] theorem runFrom_ofExcept (result : Except Error α) (s : Store) :
    (ofExcept result).runFrom s = some (result, s) := by
  cases result <;> rfl

theorem runFrom_ofHeap {operation : Heap → Answer α} {result : Except Error α} {s : Store}
    (h : operation s.heap = some result) : (ofHeap operation).runFrom s = some (result, s) := by
  simp only [ofHeap, runFrom, h]

/-- The result of the first of two computations is handed on. -/
theorem runFrom_bind_ok {x : Exec α} {f : α → Exec β} {a : α} {s s' : Store}
    (h : x.runFrom s = some (.ok a, s')) : (x >>= f).runFrom s = (f a).runFrom s' := by
  rw [runFrom_bind, h]
  rfl

/-- An error of the first of two computations is the error of both. -/
theorem runFrom_bind_error {x : Exec α} {f : α → Exec β} {e : Error} {s s' : Store}
    (h : x.runFrom s = some (.error e, s')) : (x >>= f).runFrom s = some (.error e, s') := by
  rw [runFrom_bind, h]
  rfl

/-! ## Answers from a heap -/

/-- From the heap `h` the computation gives `result` and leaves the heap `h'`.  What it records is
left open. -/
def Answers (x : Exec α) (h : Heap) (result : Except Error α) (h' : Heap) : Prop :=
  ∀ log, ∃ log', x.runFrom ⟨h, log⟩ = some (result, ⟨h', log'⟩)

variable {h h₁ h₂ : Heap}

theorem answers_pure (a : α) (h : Heap) : (pure a : Exec α).Answers h (.ok a) h :=
  fun log => ⟨log, rfl⟩

theorem answers_throw (e : Error) (h : Heap) : (throw e : Exec α).Answers h (.error e) h :=
  fun log => ⟨log, rfl⟩

theorem answers_trace (e : Event) (h : Heap) : (trace e).Answers h (.ok ()) h :=
  fun log => ⟨log.push e, rfl⟩

theorem answers_alloc (elements : List Syntax) (h : Heap) :
    (alloc elements).Answers h (.ok (h.alloc elements).1) (h.alloc elements).2 :=
  fun log => ⟨log, rfl⟩

theorem answers_ofExcept (result : Except Error α) (h : Heap) :
    (ofExcept result).Answers h result h :=
  fun log => ⟨log, runFrom_ofExcept result _⟩

theorem answers_ofHeap {operation : Heap → Answer α} {result : Except Error α}
    (hop : operation h = some result) : (ofHeap operation).Answers h result h :=
  fun log => ⟨log, runFrom_ofHeap hop⟩

/-- A computation that looks at the store only through its heap may be run on that heap. -/
theorem answers_get_bind {f : Store → Exec α} {result : Except Error α}
    (hf : ∀ log, (f ⟨h, log⟩).Answers h result h₁) : (get >>= f).Answers h result h₁ := by
  intro log
  obtain ⟨log', hrun⟩ := hf log log
  exact ⟨log', by rw [runFrom_bind_ok (runFrom_get _), hrun]⟩

theorem Answers.bind_ok {x : Exec α} {f : α → Exec β} {a : α} {result : Except Error β}
    (hx : x.Answers h (.ok a) h₁) (hf : (f a).Answers h₁ result h₂) :
    (x >>= f).Answers h result h₂ := by
  intro log
  obtain ⟨log₁, hrun⟩ := hx log
  obtain ⟨log₂, hrun'⟩ := hf log₁
  exact ⟨log₂, by rw [runFrom_bind_ok hrun, hrun']⟩

theorem Answers.bind_error {x : Exec α} {f : α → Exec β} {e : Error}
    (hx : x.Answers h (.error e) h₁) : (x >>= f).Answers h (.error e) h₁ := by
  intro log
  obtain ⟨log₁, hrun⟩ := hx log
  exact ⟨log₁, runFrom_bind_error hrun⟩

/-- An attempt answers with what is seen of the result. -/
theorem Answers.attempt {x : Exec α} {result : Except Error α} (hx : x.Answers h result h₁) :
    x.attempt.Answers h (seen result) h₁ := by
  intro log
  obtain ⟨log₁, hrun⟩ := hx log
  exact ⟨log₁, Option.map_eq_some_iff.mpr ⟨_, hrun, rfl⟩⟩

/-- An attempt fails at an overflow only. -/
theorem Answers.attempt_ok {x : Exec α} {result : Except Error α} (hx : x.Answers h result h₁)
    (hne : result ≠ .error .overflow) : x.attempt.Answers h (.ok result) h₁ :=
  seen_of_ne_overflow hne ▸ hx.attempt

/-- Two computations that leave the heap as it is, one after the other. -/
theorem Answers.bind {x : Exec α} {f : α → Exec β} {result : Except Error α}
    {g : α → Except Error β} (hx : x.Answers h result h)
    (hf : ∀ a, result = .ok a → (f a).Answers h (g a) h) :
    (x >>= f).Answers h (result >>= g) h := by
  cases result with
  | ok a => exact hx.bind_ok (hf a rfl)
  | error e => exact hx.bind_error

/-- From their stores two computations give the same result, be it a value or an error, and change
no list. -/
def AnswerAlike (x y : Exec α) (s t : Store) : Prop :=
  ∃ result log log', x.runFrom s = some (result, ⟨s.heap, log⟩) ∧
    y.runFrom t = some (result, ⟨t.heap, log'⟩)

theorem Answers.alike {x y : Exec α} {result : Except Error α} {s t : Store}
    (hx : x.Answers s.heap result s.heap) (hy : y.Answers t.heap result t.heap) :
    x.AnswerAlike y s t := by
  obtain ⟨log, hrun⟩ := hx s.log
  obtain ⟨log', hrun'⟩ := hy t.log
  exact ⟨result, log, log', hrun, hrun'⟩

/-- From one heap there is one answer. -/
theorem Answers.unique {x : Exec α} {result result' : Except Error α}
    (hx : x.Answers h result h₁) (hx' : x.Answers h result' h₂) : result = result' ∧ h₁ = h₂ := by
  obtain ⟨log₁, hrun⟩ := hx #[]
  obtain ⟨log₂, hrun'⟩ := hx' #[]
  rw [hrun] at hrun'
  simp only [Option.some.injEq, Prod.mk.injEq, Store.mk.injEq] at hrun'
  exact ⟨hrun'.1, hrun'.2.1⟩

/-- An answer tells which value a computation gives, if any. -/
theorem Answers.exists_ok_iff {x : Exec α} {result : Except Error α} {s : Store} {a : α}
    (hx : x.Answers s.heap result h₁) :
    (∃ s', x.runFrom s = some (.ok a, s')) ↔ result.toOption = some a := by
  obtain ⟨log, hrun⟩ := hx s.log
  change x.runFrom s = _ at hrun
  rw [hrun]
  cases result with
  | ok b =>
      change _ ↔ some b = some a
      simp
  | error e =>
      change _ ↔ none = some a
      simp

/-- What two computations give alike is known from one of them. -/
theorem AnswerAlike.exists_runs {x y : Exec α} {result : Except Error α} {s t : Store}
    (halike : x.AnswerAlike y s t) (hy : y.Answers t.heap result h₁) :
    ∃ log log', x.runFrom s = some (result, ⟨s.heap, log⟩) ∧
      y.runFrom t = some (result, ⟨t.heap, log'⟩) := by
  obtain ⟨result', log, log', hrun, hrun'⟩ := halike
  obtain ⟨log'', hknown⟩ := hy t.log
  have hsame : result' = result := by
    simpa using congrArg (·.map Prod.fst) (hrun'.symm.trans hknown)
  rw [hsame] at hrun hrun'
  exact ⟨log, log', hrun, hrun'⟩

end Exec

/-! ## Bodies -/

namespace Body

variable {α β : Type} {perform : Request → Exec Value} {h : Heap}

/-- A body that goes on with another runs the one after the other. -/
theorem run_then (b : Body α) (f : α → Body β) :
    (b >>= f).run perform = b.run perform >>= fun a => (f a).run perform :=
  run_bind perform b f

theorem answers_run_ofExcept (result : Except Error α) (h : Heap) :
    ((ofExcept result).run perform).Answers h result h := by
  cases result with
  | ok a => exact Exec.answers_pure a h
  | error e => exact Exec.answers_throw e h

theorem answers_run_ofHeap {operation : Heap → Answer α} {result : Except Error α}
    (hop : operation h = some result) : ((ofHeap operation).run perform).Answers h result h := by
  refine Exec.answers_get_bind fun log => ?_
  simp only [hop]
  exact answers_run_ofExcept result h

/-- What a send in a body answers is what is performed for it. -/
theorem answers_run_send {generic : GenericId} {npos nkey : UInt64} {args : List Value}
    {result : Except Error Value} {h' : Heap}
    (hsend : (perform (.send generic npos nkey args)).Answers h result h') :
    ((send generic npos nkey args).run perform).Answers h result h' := by
  -- The body does not see an overflow, but then it answers with it.
  by_cases hoverflow : result = .error .overflow
  · subst hoverflow
    exact hsend.attempt.bind_error
  · exact (hsend.attempt_ok hoverflow).bind_ok (answers_run_ofExcept result h')

end Body
end LispFront
