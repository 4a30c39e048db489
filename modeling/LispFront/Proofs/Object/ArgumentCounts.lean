import LispFront.Proofs.Object.Dispatch

/-!
# The check of the counts

Sends and calls compare the length of their flat list with the sum of its two counts.  A list that
passes is `DescribedBy` its counts.  Where the sum fits 64 bits, every other list is refused with
both lengths.  Where it does not fit, no list passes either, but then the program stops instead of
refusing the list: an overflow is no error that a method body could go on after
(`Body.runFrom_request_overflow`).

What fails the check reaches no method, in no run: `AgreesWhereChecked.perform_eq` says that no
answer depends on what the methods do with counts that fail.
-/

namespace LispFront

/-! ## Lists and their counts -/

/-- The list has as many positional arguments as the first count says, then as many pairs as the
second count says, and nothing else; and these pairs are what a method reads by the counts. -/
structure DescribedBy (args : List Value) (npos nkey : UInt64) : Prop where
  length : args.length = npos.toNat + 2 * nkey.toNat
  positional : (args.take npos.toNat).length = npos.toNat
  keywords : ∃ pairs, keywordArguments npos nkey args = .ok pairs ∧ pairs.length = nkey.toNat ∧
    ∀ i < nkey.toNat, ∃ key value, args[npos.toNat + 2 * i]? = some key ∧
      args[npos.toNat + 2 * i + 1]? = some value ∧ pairs[i]? = some (key, value)

variable {npos nkey : UInt64} {args : List Value}

/-- A list that passes the check is described by its counts. -/
theorem describedBy_of_checkLayout (hlayout : checkLayout npos nkey args = .ok ()) :
    DescribedBy args npos nkey := by
  obtain ⟨hlength, -⟩ := checkLayout_eq_ok_iff.mp hlayout
  refine ⟨hlength, ?_, _, keywordArguments_eq_pairUp hlayout, ?_, ?_⟩
  · rw [List.length_take]
    omega
  · rw [length_pairUp, List.length_drop]
    omega
  · intro i hi
    have hkey : npos.toNat + 2 * i < args.length := by omega
    have hvalue : npos.toNat + 2 * i + 1 < args.length := by omega
    refine ⟨_, _, List.getElem?_eq_getElem hkey, List.getElem?_eq_getElem hvalue, ?_⟩
    apply getElem?_pairUp
    · rw [List.getElem?_drop, List.getElem?_eq_getElem hkey]
    · rw [List.getElem?_drop, ← Nat.add_assoc, List.getElem?_eq_getElem hvalue]

/-- Counts that are too large for 64 bits together do not give keyword arguments either. -/
theorem keywordArguments_eq_overflow (hlarge : UInt64.size ≤ npos.toNat + 2 * nkey.toNat) :
    keywordArguments npos nkey args = .error .overflow := by
  unfold keywordArguments
  rw [announcedLength_eq_overflow hlarge]
  rfl

/-- A body that makes a request which overflows does not go on. -/
theorem Body.runFrom_request_overflow {α : Type} {perform : Request → Exec Value} {r : Request}
    {s s' : Store} (hstop : (perform r).runFrom s = some (.error .overflow, s'))
    (next : Except Error Value → Body α) :
    ((Body.request r next).run perform).runFrom s = some (.error .overflow, s') := by
  have hattempt : (perform r).attempt.runFrom s = some (.error .overflow, s') := by
    show ((perform r).runFrom s).map _ = _
    rw [hstop]
    rfl
  exact Exec.runFrom_bind_error hattempt

/-! ## Methods behind the check -/

namespace ObjectSystem

variable {sys : ObjectSystem} {library : String → Method}

/-- The list reaches no method by these counts: the check, every send and every call of a closure
fail with the error, and nothing is recorded or changed. -/
structure Refuses (sys : ObjectSystem) (npos nkey : UInt64) (args : List Value) (e : Error) :
    Prop where
  check : checkLayout npos nkey args = .error e
  sendRaw : ∀ generic s, (sys.sendRaw generic npos nkey args).runFrom s = some (.error e, s)
  call : ∀ code env s,
    (sys.call (.closure code env) npos nkey args).runFrom s = some (.error e, s)

/-- What fails the check is refused with the error of the check. -/
theorem refuses_of_checkLayout {e : Error} (hlayout : checkLayout npos nkey args = .error e) :
    sys.Refuses npos nkey args e where
  check := hlayout
  sendRaw _ := runFrom_sendRaw_error (Registry.select_of_checkLayout_error hlayout)
  call code env s := by
    unfold call
    rw [Exec.runFrom_bind_ok (Exec.runFrom_get s), depthBound_eq_succ s]
    simp only [perform]
    rw [hlayout, Exec.runFrom_bind_error (Exec.runFrom_ofExcept _ s)]

/-- What is not a closure cannot be called, whatever the counts are. -/
theorem runFrom_call_of_ne_closure {callee : Value}
    (hne : ∀ code env, callee ≠ .closure code env) (s : Store) :
    (sys.call callee npos nkey args).runFrom s = some (.error (.notCallable callee.kind), s) := by
  unfold call
  rw [Exec.runFrom_bind_ok (Exec.runFrom_get s), depthBound_eq_succ s]
  cases callee with
  | closure code env => exact absurd rfl (hne code env)
  | _ => rfl

/-- The methods of the library are those of the system, except for what they do with counts that
fail the check. -/
def AgreesWhereChecked (sys : ObjectSystem) (library : String → Method) : Prop :=
  ∀ name r env npos nkey args, checkLayout npos nkey args = .ok () →
    library name r env npos nkey args = sys.library name r env npos nkey args

theorem AgreesWhereChecked.enter_eq (h : sys.AgreesWhereChecked library)
    (hlayout : checkLayout npos nkey args = .ok ()) (perform : Request → Exec Value)
    (c : Closure) :
    (⟨sys.registry, library⟩ : ObjectSystem).enter perform c npos nkey args =
      sys.enter perform c npos nkey args := by
  obtain ⟨code, env⟩ := c
  cases code with
  | core m => rfl
  | user name =>
    exact congrArg (Body.run perform) (h name sys.registry env npos nkey args hlayout)

/-- No answer depends on what methods do with counts that fail the check, however deep the sends
and calls nest from which it comes. -/
theorem AgreesWhereChecked.perform_eq (h : sys.AgreesWhereChecked library) (depth : Nat)
    (request : Request) :
    (⟨sys.registry, library⟩ : ObjectSystem).perform depth request =
      sys.perform depth request := by
  -- The bodies that are entered at one depth make their requests at the depth below.
  induction depth generalizing request with
  | zero => rfl
  | succ depth ih =>
    have hbelow : (⟨sys.registry, library⟩ : ObjectSystem).perform depth = sys.perform depth :=
      funext ih
    cases request with
    | send generic npos nkey args =>
      simp only [perform, hbelow]
      cases hselect : sys.registry.select generic npos nkey args with
      | error e => rfl
      | ok selection =>
        have hlayout := Registry.checkLayout_of_select hselect
        simp only [Exec.ofExcept, pure_bind, h.enter_eq hlayout]
    | call callee npos nkey args =>
      cases callee with
      | closure code env =>
        simp only [perform, hbelow]
        cases hlayout : checkLayout npos nkey args with
        | error e => rfl
        | ok _ => simp only [Exec.ofExcept, pure_bind, h.enter_eq hlayout]
      | _ => rfl

/-- The check of the counts keeps lists from methods.

* It passes exactly the lists that are as long as the sum of the counts, if the sum has 64 bits; and
  a list that passes is described by its counts: the positional arguments are there, and the keyword
  arguments are as many pairs as the second count says.
* If the sum has 64 bits, every other list is refused with the sum and its own length.
* If the sum does not have 64 bits, the program stops: no list is compared with the sum, sent,
  passed to a closure or read by the counts, and no method body goes on after that.
* What is not a closure is not called either.
* No answer, at any depth, depends on what the methods do with counts that do not pass. -/
theorem checked_counts_guard_methods (sys : ObjectSystem) :
    (∀ (npos nkey : UInt64) (args : List Value),
      let announced := npos.toNat + 2 * nkey.toNat
      (checkLayout npos nkey args = .ok () ↔
        args.length = announced ∧ announced < UInt64.size) ∧
      (checkLayout npos nkey args = .ok () → DescribedBy args npos nkey) ∧
      (announced < UInt64.size → args.length ≠ announced →
        sys.Refuses npos nkey args (.wrongArgumentCount announced args.length)) ∧
      (UInt64.size ≤ announced → sys.Refuses npos nkey args .overflow ∧
        keywordArguments npos nkey args = .error .overflow) ∧
      ∀ callee, (∀ code env, callee ≠ .closure code env) →
        ∀ s, (sys.call callee npos nkey args).runFrom s =
          some (.error (.notCallable callee.kind), s)) ∧
    (∀ depth request s s', (sys.perform depth request).runFrom s = some (.error .overflow, s') →
      ∀ next : Except Error Value → Body Value,
        ((Body.request request next).run (sys.perform depth)).runFrom s =
          some (.error .overflow, s')) ∧
    ∀ library, sys.AgreesWhereChecked library → ∀ depth request,
      (⟨sys.registry, library⟩ : ObjectSystem).perform depth request =
        sys.perform depth request := by
  refine ⟨?_, fun _ _ _ _ => Body.runFrom_request_overflow,
    fun library hagrees => hagrees.perform_eq⟩
  intro npos nkey args announced
  refine ⟨checkLayout_eq_ok_iff, describedBy_of_checkLayout, ?_, ?_, ?_⟩
  · intro hfits hlength
    exact refuses_of_checkLayout (checkLayout_eq_error hfits hlength)
  · intro hlarge
    exact ⟨refuses_of_checkLayout (checkLayout_eq_overflow hlarge),
      keywordArguments_eq_overflow hlarge⟩
  · intro callee hne
    exact runFrom_call_of_ne_closure hne

/-- Methods that answer as those of the points do, unless their counts fail the check. -/
def checkingLibrary (name : String) : Method := fun r env npos nkey args =>
  match checkLayout npos nkey args with
  | .ok _ => pointSystem.library name r env npos nkey args
  | .error e => .fail e

/-- One positional argument and one pair are described by their counts.  The largest count is
refused for the empty list, and the program stops at the least count of keyword arguments that is
too large, `half`. -/
theorem counts_checked_at_limits :
    let args : List Value := [.nil, .symbol ⟨"k"⟩, .string "v"]
    let largest : UInt64 := 18446744073709551615
    let half : UInt64 := 9223372036854775808
    DescribedBy args 1 1 ∧
      pointSystem.Refuses largest 0 [] (.wrongArgumentCount 18446744073709551615 0) ∧
      pointSystem.Refuses 0 half [] .overflow ∧
      (∀ s, (pointSystem.call .nil largest 0 []).runFrom s =
        some (.error (.notCallable "nil"), s)) ∧
      (∀ s, ((Body.request (.send ⟨6⟩ 0 half []) fun _ => .done Value.nil).run
        (pointSystem.perform 1)).runFrom s = some (.error .overflow, s)) ∧
      ∀ depth request, (⟨pointRegistry, checkingLibrary⟩ : ObjectSystem).perform depth request =
        pointSystem.perform depth request := by
  intro args largest half
  obtain ⟨hcounts, hstops, hlibrary⟩ := checked_counts_guard_methods pointSystem
  have hpasses : checkLayout 1 1 args = .ok () := rfl
  have hagrees : pointSystem.AgreesWhereChecked checkingLibrary := by
    intro name r env npos nkey args hlayout
    unfold checkingLibrary
    rw [hlayout]
  have hselect : pointRegistry.select ⟨6⟩ 0 half [] = .error .overflow :=
    Registry.select_of_checkLayout_error (checkLayout_eq_overflow (by decide))
  obtain ⟨-, hdescribed, -⟩ := hcounts 1 1 args
  obtain ⟨-, -, hrefused, -, hcall⟩ := hcounts largest 0 []
  obtain ⟨-, -, -, hlarge, -⟩ := hcounts 0 half []
  refine ⟨hdescribed hpasses, hrefused (by decide) (by decide), (hlarge (by decide)).1,
    hcall .nil nofun, fun s => hstops 1 _ s s ?_ _, hlibrary checkingLibrary hagrees⟩
  simp only [perform]
  exact Exec.runFrom_bind_error (congrArg (fun r => (Exec.ofExcept r).runFrom s) hselect)

/-- Twice `half` has more than 64 bits.  The empty list is not as long as that, but it is not
refused for its length: the check, a send and a call of a closure stop the program. -/
theorem half_stops_instead_of_refusing :
    let half : UInt64 := 9223372036854775808
    ([] : List Value).length ≠ (0 : UInt64).toNat + 2 * half.toNat ∧
      checkLayout 0 half [] = .error .overflow ∧
      (∀ s, (pointSystem.sendRaw ⟨6⟩ 0 half []).runFrom s = some (.error .overflow, s)) ∧
      (∀ s, (pointSystem.call (.closure (.user "any") .nil) 0 half []).runFrom s =
        some (.error .overflow, s)) ∧
      ∀ expected found, Error.overflow ≠ .wrongArgumentCount expected found := by
  intro half
  have hlarge : UInt64.size ≤ (0 : UInt64).toNat + 2 * half.toNat := by decide
  have hrefuses : pointSystem.Refuses 0 half [] .overflow :=
    refuses_of_checkLayout (checkLayout_eq_overflow hlarge)
  exact ⟨by decide, hrefuses.check, hrefuses.sendRaw ⟨6⟩, hrefuses.call (.user "any") .nil, nofun⟩

end ObjectSystem
end LispFront
