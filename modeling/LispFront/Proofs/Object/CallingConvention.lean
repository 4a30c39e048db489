import LispFront.Proofs.Object.Extension

/-!
# The calling convention

A call is written as one flat list with two counts, and read again by the method that it selects.
`Carries` says that a list and its counts are read as these arguments.  What `send` writes is read
as what it was given (`carries_flattenArguments`), and a list that passes the check of its counts,
with symbols at the places of the keys, is written again as it is
(`exists_carries_of_checkLayout`).
-/

namespace LispFront

/-! ## Pairs of keys and values -/

theorem flattenArguments_eq_append (positional : List Value) (keywords : List (Symbol × Value)) :
    flattenArguments positional keywords = positional ++ flattenArguments [] keywords := by
  simp [flattenArguments]

/-- A list with a symbol at every other place is the flat form of keyword arguments. -/
theorem exists_flattenArguments_eq {xs : List Value} {n : Nat} (hlength : xs.length = 2 * n)
    (hkeys : ∀ i < n, ∃ key, xs[2 * i]? = some (.symbol key)) :
    ∃ keywords, keywords.length = n ∧ flattenArguments [] keywords = xs := by
  induction n generalizing xs with
  | zero => exact ⟨[], rfl, (List.length_eq_zero_iff.mp hlength).symm⟩
  | succ n ih =>
      match xs, hlength with
      | key :: value :: rest, hlength =>
          obtain ⟨name, hname⟩ := hkeys 0 (Nat.zero_lt_succ n)
          have hrest : rest.length = 2 * n := by
            simp only [List.length_cons] at hlength
            omega
          obtain ⟨keywords, hn, hflat⟩ := ih hrest fun i hi => hkeys (i + 1) (by omega)
          refine ⟨(name, value) :: keywords, by simp [hn], ?_⟩
          obtain rfl : key = .symbol name := by simpa using hname
          simpa [flattenArguments] using hflat

/-! ## Reading what is written -/

/-- The flat list passes the check of its counts, and a method that reads it by them finds these
positional and these keyword arguments, in order. -/
structure Carries (npos nkey : UInt64) (args : List Value) (positional : List Value)
    (keywords : List (Symbol × Value)) : Prop where
  countPositional : npos.toNat = positional.length
  countKeywords : nkey.toNat = keywords.length
  layout : checkLayout npos nkey args = .ok ()
  takePositional : args.take npos.toNat = positional
  readKeywords : keywordArguments npos nkey args =
    .ok (keywords.map fun (key, value) => (.symbol key, value))

variable {npos nkey : UInt64} {positional : List Value} {keywords : List (Symbol × Value)}

/-- The flat form of arguments that can be counted carries them. -/
theorem carries_flattenArguments (hnpos : npos.toNat = positional.length)
    (hnkey : nkey.toNat = keywords.length)
    (hfits : positional.length + 2 * keywords.length < UInt64.size) :
    Carries npos nkey (flattenArguments positional keywords) positional keywords := by
  have hlayout : checkLayout npos nkey (flattenArguments positional keywords) = .ok () := by
    rw [checkLayout_eq_ok_iff, length_flattenArguments, hnpos, hnkey]
    exact ⟨rfl, hfits⟩
  refine ⟨hnpos, hnkey, hlayout, ?_, ?_⟩
  · rw [hnpos, flattenArguments_eq_append, List.take_left]
  · rw [keywordArguments_eq_pairUp hlayout, hnpos, flattenArguments_eq_append, List.drop_left,
      pairUp_flattenArguments]

/-- A list with symbols for its keys carries arguments of which it is the flat form. -/
theorem exists_carries_of_checkLayout {args : List Value}
    (hlayout : checkLayout npos nkey args = .ok ())
    (hkeys : ∀ i < nkey.toNat, ∃ key, args[npos.toNat + 2 * i]? = some (.symbol key)) :
    ∃ keywords, Carries npos nkey args (args.take npos.toNat) keywords ∧
      flattenArguments (args.take npos.toNat) keywords = args := by
  obtain ⟨hwhole, hfits⟩ := checkLayout_eq_ok_iff.mp hlayout
  have hlength : (args.drop npos.toNat).length = 2 * nkey.toNat := by
    rw [List.length_drop]
    omega
  have hnames : ∀ i < nkey.toNat, ∃ key, (args.drop npos.toNat)[2 * i]? = some (.symbol key) := by
    simpa only [List.getElem?_drop] using hkeys
  obtain ⟨keywords, hcount, hflat⟩ := exists_flattenArguments_eq hlength hnames
  have hflatten : flattenArguments (args.take npos.toNat) keywords = args := by
    rw [flattenArguments_eq_append, hflat, List.take_append_drop]
  have hnpos : npos.toNat = (args.take npos.toNat).length := by
    rw [List.length_take]
    omega
  have hcarries := carries_flattenArguments hnpos hcount.symm (by omega)
  rw [hflatten] at hcarries
  exact ⟨keywords, hcarries, hflatten⟩

/-! ## Sending -/

namespace ObjectSystem

/-- The calling convention gives back what is passed by it.

* The method that a send selects by the receiver and the positional arguments runs on two counts and
  a flat list that carry the receiver, the positional arguments and the keyword arguments, in order.
  Also when there is no such method, the failure is not one of the counts.  The length of a list has
  64 bits, so there are no more arguments than that.
* A list that passes the check of its counts, and has symbols at the places of the keys, is the flat
  form of its first elements and of its keyword arguments. -/
theorem send_carries_arguments {sys : ObjectSystem} (hsys : sys.registry.Booted) :
    let r := sys.registry
    (∀ (generic : GenericId) (receiver : Value) (positional : List Value)
      (keywords : List (Symbol × Value)),
      1 + positional.length + 2 * keywords.length < UInt64.size →
      let g := r.getGeneric generic
      let npos := (receiver :: positional).length.toUInt64
      let nkey := keywords.length.toUInt64
      let args := flattenArguments (receiver :: positional) keywords
      Carries npos nkey args (receiver :: positional) keywords ∧
      sys.send generic receiver positional keywords = sys.sendRaw generic npos nkey args ∧
      (∀ i entry, r.FirstApplicable generic (receiver :: positional) i entry →
        ∀ s, sys.SendRuns generic npos nkey args
          (sys.methodOf entry.closure.code r entry.closure.env npos nkey args) s
          ⟨s.heap, s.log.push (.selected g.name i)⟩) ∧
      ((∀ entry ∈ g.methods, ¬ r.AppliesTo entry (receiver :: positional)) →
        ∃ classes, ∀ s, (sys.send generic receiver positional keywords).runFrom s =
          some (.error (.dispatch g.name classes), s))) ∧
    ∀ (npos nkey : UInt64) (args : List Value), checkLayout npos nkey args = .ok () →
      (∀ i < nkey.toNat, ∃ key, args[npos.toNat + 2 * i]? = some (.symbol key)) →
        ∃ keywords, Carries npos nkey args (args.take npos.toNat) keywords ∧
          flattenArguments (args.take npos.toNat) keywords = args := by
  intro r
  refine ⟨?_, fun npos nkey args => exists_carries_of_checkLayout⟩
  intro generic receiver positional keywords hfits g npos nkey args
  have hnpos : npos.toNat = (receiver :: positional).length := by
    apply UInt64.toNat_ofNat_of_lt
    rw [List.length_cons]
    omega
  have hnkey : nkey.toNat = keywords.length := by
    apply UInt64.toNat_ofNat_of_lt
    omega
  have hcarries : Carries npos nkey args (receiver :: positional) keywords :=
    carries_flattenArguments hnpos hnkey (by rw [List.length_cons]; omega)
  refine ⟨hcarries, rfl, ?_, ?_⟩
  · intro i entry hfirst s
    rw [← hcarries.takePositional] at hfirst
    exact sendRuns_of_select
      (hsys.select_of_first hcarries.layout hfirst.found hfirst.applies hfirst.earlier) s
  · intro hnone
    rw [← hcarries.takePositional] at hnone
    obtain ⟨classes, -, hselect⟩ := hsys.select_of_none hcarries.layout hnone
    exact ⟨_, runFrom_sendRaw_error hselect⟩

/-- A name that is repeated among the keywords reaches the method twice, and the list that reaches
it is written again as it is. -/
theorem send_repeated_keyword :
    let point : Value := .object ⟨13⟩ .nil
    let keywords : List (Symbol × Value) := [(⟨"k"⟩, .nil), (⟨"k"⟩, .string "again")]
    let args : List Value := [point, .nil, .symbol ⟨"k"⟩, .nil, .symbol ⟨"k"⟩, .string "again"]
    pointSystem.registry.Booted ∧ 1 + [Value.nil].length + 2 * keywords.length < UInt64.size ∧
      Carries 2 2 args [point, .nil] keywords ∧
      (∀ s, (pointSystem.send ⟨6⟩ point [.nil] keywords).runFrom s =
        some (.ok (.string "pair first 2 2 instance nil k nil k again"),
          ⟨s.heap, s.log.push (.selected ⟨"describe"⟩ 0)⟩)) ∧
      ∃ keywords', Carries 2 2 args [point, .nil] keywords' ∧
        flattenArguments [point, .nil] keywords' = args := by
  intro point keywords args
  have hbooted : pointSystem.registry.Booted := booted_pointRegistry
  have hfits : 1 + [Value.nil].length + 2 * keywords.length < UInt64.size := by decide
  have hspecs : ∀ c ∈ (⟨⟨.user "pair", .string "first"⟩, [⟨13⟩, ⟨0⟩]⟩ : MethodEntry).specializers,
      pointRegistry.HasClass c := by
    decide +kernel
  have hfirst : pointSystem.registry.FirstApplicable ⟨6⟩ [point, .nil] 0
      ⟨⟨.user "pair", .string "first"⟩, [⟨13⟩, ⟨0⟩]⟩ :=
    ⟨by decide +kernel, (pointRegistry_applies_iff hspecs _).mp (by decide +kernel), nofun⟩
  have haccount : account "pair" (.string "first") 2 2 args =
      "pair first 2 2 instance nil k nil k again" := by decide +kernel
  obtain ⟨hsend, hlist⟩ := send_carries_arguments hbooted
  obtain ⟨hcarries, hflat, hruns, -⟩ := hsend ⟨6⟩ point [.nil] keywords hfits
  have hkeys : ∀ i < (2 : UInt64).toNat,
      ∃ key, args[(2 : UInt64).toNat + 2 * i]? = some (.symbol key) := by
    intro i hi
    match i, hi with
    | 0, _ => exact ⟨⟨"k"⟩, rfl⟩
    | 1, _ => exact ⟨⟨"k"⟩, rfl⟩
  refine ⟨hbooted, hfits, hcarries, fun s => ?_, hlist 2 2 args hcarries.layout hkeys⟩
  rw [hflat, ← name_describe, ← haccount]
  exact SendRuns.runFrom_done (hruns 0 _ hfirst s)

end ObjectSystem
end LispFront
