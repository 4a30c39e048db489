import LispFront.Proofs.Ast.Spelling
import LispFront.Proofs.Source.Reading

/-!
# Syntax trees are read back

What is handed on for a syntax tree can be read again.  The names in the tree are names of its
source, and so they are atoms (`FromSource.exists_normalize`); therefore every layout of the tree
spells its written form, which tells the tree from all others.
-/

namespace LispFront

/-! ## Names of a source -/

namespace Source

variable {ds : List Datum} {tokens : List Token} {source : List Char} {afterAtom : Bool}

/-- The symbols of a forest are its atoms. -/
theorem Tokens.allSymbolsIn {named : Symbol → Prop} (h : Tokens ds tokens)
    (hnamed : ∀ name, .atom name ∈ tokens → named ⟨name⟩) : Datum.AllSymbolsIn named ds := by
  induction h with
  | nil => trivial
  | symbol _ ih =>
      exact ⟨hnamed _ List.mem_cons_self, ih fun name hname => hnamed name (.tail _ hname)⟩
  | string _ ih => exact ⟨trivial, ih fun name hname => hnamed name (.tail _ hname)⟩
  | list _ _ ihInner ihRest =>
      refine ⟨ihInner fun name hname => ?_, ihRest fun name hname => ?_⟩
      · exact hnamed name (List.mem_append_left _ (.tail _ hname))
      · exact hnamed name (List.mem_append_right _ (.tail _ hname))

theorem Spelled.atomName {name : String} (h : Spelled afterAtom tokens source)
    (hname : .atom name ∈ tokens) : AtomName name.toList := by
  induction h with
  | nil => cases hname
  | cons _ _ hwritten _ ih =>
      cases hname with
      | head =>
          cases hwritten with
          | atom hatom => exact hatom
      | tail _ hlater => exact ih hlater

theorem Spells.allSymbolsIn (h : Spells ds source) : Datum.AllSymbolsIn Symbol.IsAtom ds := by
  obtain ⟨tokens, htokens, hspelled⟩ := h
  exact htokens.allSymbolsIn fun name hname => hspelled.atomName hname

end Source

theorem Datum.AllSymbolsIn.of_mem {named : Symbol → Prop} {ds : List Datum}
    (h : AllSymbolsIn named ds) {d : Datum} (hd : d ∈ ds) : d.SymbolsIn named := by
  induction ds with
  | nil => cases hd
  | cons e ds ih =>
      cases hd with
      | head => exact h.1
      | tail _ hlater => exact ih h.2 hlater

/-! ## Trees of a source -/

namespace Ast

open Source
open ObjectSystem (booted_extendedSystem)

/-- The tree is what a form of a source is normalized to, in a booted system.  Between reading and
normalizing more may have been registered, and lists may have been added to those of the source. -/
inductive FromSource (a : Ast) : Prop
  | intro {sys sys' : ObjectSystem} {text : String} {root : ListRef} {x : Syntax}
      {nz : Normalizer} {s₁ s₂ s₃ s₄ s₅ s₆ : Store} (hsys : sys.registry.Booted)
      (hread : (sys.read text).runFrom s₁ = some (.ok root, s₂))
      (hform : x ∈ s₂.heap.elements root) (hsys' : sys'.registry.Booted)
      (hnew : (Normalizer.new sys').runFrom s₃ = some (.ok nz, s₄))
      (hlater : s₂.heap.Extends s₅.heap)
      (hnormalize : (nz.normalize x).runFrom s₅ = some (.ok a, s₆)) : FromSource a

/-- Such a tree is normalized from a tree of atoms. -/
theorem FromSource.exists_normalize {a : Ast} (h : a.FromSource) :
    ∃ d : Datum, d.SymbolsIn Symbol.IsAtom ∧ d.normalize = .ok a := by
  obtain @⟨sys, sys', text, root, x, nz, s₁, s₂, s₃, s₄, s₅, s₆, hsys, hread, hform, hsys', hnew,
    hlater, hnormalize⟩ := h
  obtain ⟨ds, hspells, hunfolds⟩ := ObjectSystem.exists_spells_of_run hsys hread
  obtain ⟨d, hd, hx⟩ := (Heap.unfolds_list.mp hunfolds).2.exists_of_mem hform
  -- There is one normalizer of the system, and it is ready.
  obtain ⟨ready, hready, hanswers⟩ := Normalizer.exists_ready hsys'
  obtain ⟨log, hrun⟩ := hanswers s₃.heap s₃.log
  obtain ⟨rfl, -⟩ : nz = ready ∧ s₄ = ⟨s₃.heap, log⟩ := by simpa [hnew] using hrun
  obtain ⟨log', hrun'⟩ := hready.answers_normalize (hlater.unfolds hx) s₅.log
  obtain ⟨hresult, -⟩ : .ok a = d.normalize ∧ s₆ = ⟨s₅.heap, log'⟩ := by
    simpa [hnormalize] using hrun'
  exact ⟨d, hspells.allSymbolsIn.of_mem hd, hresult.symm⟩

theorem FromSource.named {a : Ast} (h : a.FromSource) : a.Named Symbol.IsAtom := by
  obtain ⟨d, hd, hnormalize⟩ := h.exists_normalize
  exact Datum.named_of_normalize hd hnormalize

theorem FromSource.expressible {a : Ast} (h : a.FromSource) : a.Expressible := by
  obtain ⟨d, -, hnormalize⟩ := h.exists_normalize
  exact (normal_iff.mp (Datum.normal_of_normalize hnormalize)).1

/-- A source of one form that is normalized is a source of its tree. -/
theorem fromSource_of_spells {a : Ast} {d : Datum} {text : String}
    (hspells : Spells [d] text.toList) (hnormalize : d.normalize = .ok a) : a.FromSource := by
  obtain ⟨root, s₂, hread, hunfolds⟩ :=
    ObjectSystem.exists_run_of_spells booted_extendedSystem .empty hspells
  obtain ⟨x, rest, hlist, hx, -⟩ := (Heap.unfolds_list.mp hunfolds).2
  obtain ⟨nz, hready, hanswers⟩ := Normalizer.exists_ready booted_extendedSystem
  obtain ⟨log, hnew⟩ := hanswers s₂.heap s₂.log
  obtain ⟨log', hrun⟩ := hready.answers_normalize hx s₂.log
  rw [hnormalize] at hrun
  have hform : x ∈ s₂.heap.elements root := by
    rw [hlist]
    exact List.mem_cons_self
  exact .intro booted_extendedSystem hread hform booted_extendedSystem hnew (.refl s₂.heap) hrun

end Ast

/-! ## Reading what is handed on -/

namespace ObjectSystem

open Source

variable {sys : ObjectSystem} {a b : Ast} {text : String} {d e : Datum}

/-- From every store the text is read into exactly one form, which stands for the tree. -/
def ReadsAs (sys : ObjectSystem) (text : String) (d : Datum) : Prop :=
  ∀ s, ∃ root s', (sys.read text).runFrom s = some (.ok root, s') ∧
    s'.heap.Unfolds (.list root) (.list [d])

theorem ReadsAs.unique (h : sys.ReadsAs text d) (h' : sys.ReadsAs text e) : d = e := by
  obtain ⟨root, s, hrun, hd⟩ := h .empty
  obtain ⟨root', s', hrun', he⟩ := h' .empty
  rw [hrun] at hrun'
  cases hrun'
  exact (List.cons.inj (Datum.list.inj (hd.unique he))).1

theorem readsAs_written (hsys : sys.registry.Booted) (ha : a.FromSource) (h : a.MayEmit text) :
    sys.ReadsAs text a.written :=
  fun s => exists_run_of_spells hsys s (h.spells ha.named)

/-- What is handed on for a tree of a source is read as one form, which is the same at every width,
and the forms of two trees are the same exactly when the trees are.  So nothing can be handed on for
two different trees.  Of a layout no more is used than what every layout promises. -/
theorem emit_readsAs (hsys : sys.registry.Booted) (ha : a.FromSource) (hb : b.FromSource) :
    ∃ d e : Datum,
      (∀ width, sys.ReadsAs (a.emit width false) d ∧ sys.ReadsAs (b.emit width false) e) ∧
      (d = e ↔ a = b) ∧
      (∀ width width', a.emit width false = b.emit width' false → a = b) ∧
      ∀ text, (a.MayEmit text → sys.ReadsAs text d) ∧ (b.MayEmit text → sys.ReadsAs text e) := by
  have hread (width : Nat) : sys.ReadsAs (a.emit width false) a.written :=
    readsAs_written hsys ha (a.mayEmit_emit width)
  have hread' (width : Nat) : sys.ReadsAs (b.emit width false) b.written :=
    readsAs_written hsys hb (b.mayEmit_emit width)
  have hsame : a.written = b.written ↔ a = b :=
    ⟨Ast.eq_of_written_eq ha.expressible b hb.expressible, congrArg Ast.written⟩
  refine ⟨a.written, b.written, fun width => ⟨hread width, hread' width⟩, hsame, ?_,
    fun text => ⟨readsAs_written hsys ha, readsAs_written hsys hb⟩⟩
  intro width width' htext
  have hsecond := hread' width'
  rw [← htext] at hsecond
  exact hsame.mp ((hread width).unique hsecond)

/-- A call of `f` with two keywords that have the same value. -/
def sampleKeywords (first second : Symbol) : Ast :=
  .app (.ref ⟨⟨"f"⟩, .functions⟩)
    ⟨[], [(first, .ref ⟨⟨"x"⟩, .values⟩), (second, .ref ⟨⟨"x"⟩, .values⟩)]⟩

/-- The form that is normalized to that call. -/
def sampleKeywordsForm (first second : Symbol) : Datum :=
  .list [.ofSymbol ⟨"f"⟩, .ofSymbol first.withColon, .ofSymbol ⟨"x"⟩, .ofSymbol second.withColon,
    .ofSymbol ⟨"x"⟩]

theorem spells_sampleKeywordsForm {first second : Symbol} (hfirst : first.withColon.IsAtom)
    (hsecond : second.withColon.IsAtom) :
    Spells [sampleKeywordsForm first second]
      ("(f " ++ first.withColon.name ++ " x " ++ second.withColon.name ++ " x)\n").toList := by
  have hgap : Gap [' '] := .separator (by decide) .nil
  have hne : [' '] ≠ [] := List.cons_ne_nil _ _
  have hf : Writes [.ofSymbol ⟨"f"⟩] ['f'] := writes_atom (s := ⟨"f"⟩) (by decide)
  have hx : Writes [.ofSymbol ⟨"x"⟩] ['x'] := writes_atom (s := ⟨"x"⟩) (by decide)
  have hlast := (writes_atom hsecond).append_gap hgap hne hx
  have hkeywords := (writes_atom hfirst).append_gap hgap hne (hx.append_gap hgap hne hlast)
  have hcall := (hf.append_gap hgap hne hkeywords).list.spells_line
  rw [String.toList_append, String.toList_append, String.toList_append, String.toList_append]
  simpa [sampleKeywordsForm] using hcall

/-- The two calls differ in the order of their keywords only, and are read as different forms. -/
theorem emit_readsAs_sampleKeywords :
    extendedSystem.registry.Booted ∧
      (sampleKeywords ⟨"j"⟩ ⟨"k"⟩).FromSource ∧ (sampleKeywords ⟨"k"⟩ ⟨"j"⟩).FromSource ∧
      ∃ d e : Datum, d ≠ e ∧ ∀ width,
        extendedSystem.ReadsAs ((sampleKeywords ⟨"j"⟩ ⟨"k"⟩).emit width false) d ∧
        extendedSystem.ReadsAs ((sampleKeywords ⟨"k"⟩ ⟨"j"⟩).emit width false) e := by
  have hj : Symbol.IsAtom (Symbol.withColon ⟨"j"⟩) := by decide
  have hk : Symbol.IsAtom (Symbol.withColon ⟨"k"⟩) := by decide
  have hfirst : (sampleKeywords ⟨"j"⟩ ⟨"k"⟩).FromSource :=
    Ast.fromSource_of_spells (spells_sampleKeywordsForm hj hk) rfl
  have hsecond : (sampleKeywords ⟨"k"⟩ ⟨"j"⟩).FromSource :=
    Ast.fromSource_of_spells (spells_sampleKeywordsForm hk hj) rfl
  obtain ⟨d, e, hread, hsame, -⟩ := emit_readsAs booted_extendedSystem hfirst hsecond
  refine ⟨booted_extendedSystem, hfirst, hsecond, d, e, fun heq => ?_, hread⟩
  have hne : sampleKeywords ⟨"j"⟩ ⟨"k"⟩ ≠ sampleKeywords ⟨"k"⟩ ⟨"j"⟩ := by simp [sampleKeywords]
  exact hne (hsame.mp heq)

end ObjectSystem
end LispFront
