import ScriptAnalysis.Proofs.Typing.Acceptance
import ScriptAnalysis.Proofs.Typing.Resolved

/-!
What an analysis finds. Every attribute that a program requires is known in the end
(`Program.analysis_complete`), and the type of an expression is the one that a direct recursion gives,
from the names as the analysis bound them (`Program.analysis_agrees`).
-/
namespace ScriptAnalysis

namespace Attributes

variable {t : Attributes} {x : Attribute}

theorem decl?_of_slot {o : Option DeclId} (h : t.slot? x = some (.of .decl o)) : t.decl? x = o := by
  cases o <;> simp_all [decl?, get?, Slot.of]

theorem scope?_of_slot {o : Option ScopeId} (h : t.slot? x = some (.of .scope o)) :
    t.scope? x = o := by
  cases o <;> simp_all [scope?, get?, Slot.of]

end Attributes

def Stmt.declares : Stmt → Bool
  | .variable _ _ | .field _ | .function _ _ _ _ | .struct _ _ _ | .cls _ _ _ _
  | .template _ _ _ _ => true
  | _ => false

def Site.declares (s : Site) : Bool :=
  match s.part with
  | .binder _ _ => true
  | .stmt x => x.declares
  | _ => false

theorem Stmt.Leaves.exists_declared {d : Draft} {st : Setting} {x : Stmt} {e : Entry}
    (h : x.Leaves d st e) (hx : x.declares = true) : e.declared ≠ [] := by
  cases h with
  | block | ifThen | ifElse | loop | ret | action => cases hx
  | _ => simp

theorem Site.Leaves.exists_declared {d : Draft} {s : Site} {e : Entry} (h : s.Leaves d e)
    (hs : s.declares = true) : e.declared ≠ [] := by
  cases h with
  | field | parameter | typeParameter => simp
  | stmt h => exact h.exists_declared hs
  | _ => cases hs

inductive Program.Requires (p : Program) (tables : Tables) : Attribute → Prop
  | site {s : Site} {κ : AttributeKind} (hs : s ∈ p.sites) (hκ : κ ∈ s.attributes) :
      Requires p tables ⟨.node s.id, κ⟩
  | declaration {id : DeclId} (hid : id.index < tables.declarations.size) :
      Requires p tables (.typeOfDecl id)

namespace Program.Analysed

variable {p : Program} {d : Draft} {a : Analysis} {x : Attribute}

theorem slot?_eq (h : p.Analysed d a) {slot : Slot} (hx : d.state.Supplies x)
    (hsol : (d.names p).solution x = some slot) : a.attributes.slot? x = some slot := by
  obtain ⟨slot', hslot⟩ := Attributes.isKnown_iff.1 (h.known x hx)
  have hsol' := h.within x slot' hslot
  rw [hslot, ← hsol, hsol']

theorem slot?_of_input (h : p.Analysed d a) {α : Type} {wrap : α → Value} {o : Option α}
    (hx : p.Input d wrap x o) : a.attributes.slot? x = some (.of wrap o) :=
  h.slot?_eq hx.supplied hx.solved

theorem known_of_requires (hp : p.Numbered) (h : p.Analysed d a) (hx : p.Requires a.tables x) :
    a.attributes.isKnown x = true := by
  apply h.known
  cases hx with
  | site hs hκ => exact h.drafted.supplies_site hs hκ
  | declaration hid =>
    rw [h.tables] at hid
    exact h.drafted.supplies_typeOfDecl hp hid

theorem set_of_known (h : p.Analysed d a) (hx : a.attributes.isKnown x = true)
    (hnil : a.diagnostics = []) : a.attributes.isSet x = true := by
  obtain ⟨slot, hslot⟩ := Attributes.isKnown_iff.1 hx
  cases slot with
  | set v => exact Attributes.isSet_iff.2 ⟨v, hslot⟩
  | failed => exact absurd hnil (h.tells x (Attributes.isFailed_iff.2 hslot))

theorem exists_declaration (h : p.Analysed d a) {s : Site} (hs : s ∈ p.sites)
    (hd : s.declares = true) :
    ∃ id, a.declaredBy? s.id = some id ∧ p.Requires a.tables (.typeOfDecl id) := by
  have hne : d.tables.declarations.idsAt s.id ≠ [] := (h.drafted.leaves s hs).exists_declared hd
  obtain ⟨id, hlast⟩ := Option.ne_none_iff_exists'.1 (List.getLast?_eq_none_iff.not.2 hne)
  obtain ⟨x, hx, _⟩ := Declarations.mem_idsAt.1 (List.mem_of_getLast? hlast)
  refine ⟨id, ?_, .declaration ?_⟩
  · rw [Analysis.declaredBy?, h.tables, Declarations.forNode?_eq, hlast]
  · rw [h.tables]
    exact Declarations.lt_size_of_getElem? hx

theorem solution_scope {n : NodeId} (hn : (p.siteAt n).bind Site.reference? = none) :
    (d.names p).solution (.scopeOf n) =
      ((d.names p).scope n).map fun id => .set (.scope id) := by
  have hsite : (d.names p).site n = p.siteAt n := rfl
  cases hs : p.siteAt n with
  | none => simp [Names.solution, hsite, hs]
  | some s =>
    obtain ⟨_, rfl⟩ := mem_of_siteAt hs
    have hr : s.reference? = none := by simpa [hs] using hn
    simp [Names.solution, hsite, hs, Names.siteSlot, hr]

theorem decl_eq (hp : p.Numbered) (h : p.Analysed d a) (n : NodeId) :
    (a.names p).decl n = (d.names p).decl n := by
  cases hsite : p.siteAt n with
  | none => simp [Analysis.names, Draft.names, Draft.bindingAt, hsite]
  | some s =>
    obtain ⟨hs, rfl⟩ := mem_of_siteAt hsite
    cases hr : s.reference? with
    | none => simp [Analysis.names, Draft.names, Draft.bindingAt, hsite, hr]
    | some ref =>
      have hdecl := Attributes.decl?_of_slot
        (h.slot?_of_input (Drafted.input_decl hp h.drafted hs hr))
      rw [← Site.id_of_reference? hr] at hdecl
      simpa [Analysis.names, hsite, hr] using hdecl

theorem scope_eq (hp : p.Numbered) (h : p.Analysed d a) (n : NodeId) :
    (a.names p).scope n = (d.names p).scope n := by
  have hscope : (a.names p).scope n = a.attributes.scope? (.scopeOf n) := rfl
  cases hn : (p.siteAt n).bind Site.reference? with
  | some ref =>
    obtain ⟨s, hsite, hr⟩ := Option.bind_eq_some_iff.1 hn
    obtain ⟨hs, rfl⟩ := mem_of_siteAt hsite
    rw [hscope, Site.id_of_reference? hr]
    exact Attributes.scope?_of_slot (h.slot?_of_input (Drafted.input_scope hp h.drafted hs hr))
  | none =>
    have hsol := solution_scope (d := d) hn
    have hdraft : (d.names p).scope n = d.attributes.scope? (.scopeOf n) := by
      simp [Draft.names, hn]
    ext id
    rw [hscope, Attributes.scope?_eq_some]
    constructor
    · intro hslot
      have hset := h.within _ _ hslot
      simpa [hsol] using hset
    · intro hid
      have hslot := Attributes.scope?_eq_some.1 (hdraft ▸ hid)
      exact h.slot?_eq (Draft.supplies_of_slot hslot) (by simp [hsol, hid])

/-- The analysis binds the names of a program as the draft does. -/
theorem names_eq (hp : p.Numbered) (h : p.Analysed d a) : a.names p = d.names p := by
  have hdecl : (a.names p).decl = (d.names p).decl := funext (h.decl_eq hp)
  have hscope : (a.names p).scope = (d.names p).scope := funext (h.scope_eq hp)
  exact (Names.mk.injEq ..).mpr ⟨h.tables, rfl, hdecl, hscope⟩

theorem slot?_expr (hp : p.Numbered) (h : p.Analysed d a) {st : Setting} {role : Role} {e : Expr}
    (hs : ⟨st, .expr role e⟩ ∈ p.sites) :
    a.attributes.slot? (.typeOf e.id) = some (.of .type ((a.names p).typeIn st role e)) := by
  rw [h.names_eq hp]
  exact h.slot?_of_input (Drafted.input_expr hp h.drafted hs)

theorem slot?_reference (hp : p.Numbered) (h : p.Analysed d a) {st : Setting} {ref : Reference}
    (hs : ⟨st, .reference ref⟩ ∈ p.sites) :
    a.attributes.slot? (.typeOf ref.node.id) =
      some (.of .type ((a.names p).referenceType ref)) := by
  rw [h.names_eq hp]
  exact h.slot?_eq (h.drafted.supplies_site hs (by simp [Site.attributes]))
    (Drafted.solution_site hp hs .type)

end Program.Analysed

/-- An analysis that got to its end: nothing is stuck, all that the program requires is known, every
declaration of the program has an entry, and a failure has been reported. -/
structure Analysis.Complete (a : Analysis) (p : Program) : Prop where
  unstuck : ∀ x ∈ a.diagnostics, x.cause.isStuck = false
  known : ∀ x, p.Requires a.tables x → a.attributes.isKnown x = true
  declared : ∀ s ∈ p.sites, s.declares = true →
    ∃ id, a.declaredBy? s.id = some id ∧ p.Requires a.tables (.typeOfDecl id)
  reported : ∀ x, a.attributes.isFailed x = true → a.diagnostics ≠ []
  set : a.diagnostics = [] → ∀ x, p.Requires a.tables x → a.attributes.isSet x = true

theorem Program.analysis_complete {tokens : List Token} {file : String} {p : Program} {c : Cursor}
    (h : Program.parse tokens file = .ok p c) : ∃ a, p.analyse = .ok a ∧ a.Complete p := by
  have hp := numbered_of_parse h
  obtain ⟨d, a, ha, hd⟩ := analysed hp
  refine ⟨a, ha, hd.causes, fun x hx => hd.known_of_requires hp hx, ?_, hd.tells, ?_⟩
  · intro s hs hdecl
    exact hd.exists_declaration hs hdecl
  · intro hnil x hx
    exact hd.set_of_known (hd.known_of_requires hp hx) hnil

def mutualText : String :=
  "fun even(n: Int): Bool \x7b return n == 0 || odd(n - 1) \x7d
  fun odd(n: Int): Bool \x7b return !even(n) \x7d"

theorem Program.analysis_complete_mutual :
    ∃ tokens p c a, Token.tokenize mutualText "parity" = .ok tokens ∧
      Program.parse tokens "parity" = .ok p c ∧ p.analyse = .ok a ∧ a.diagnostics = [] ∧
      a.Complete p := by
  obtain ⟨tokens, p, c, a, htokens, hparse, ha, hnil, _⟩ :=
    Program.exists_of_accepts 6 "parity" mutualText (fun _ _ => true) (by decide +kernel)
  obtain ⟨a', ha', hc⟩ := Program.analysis_complete hparse
  obtain rfl : a = a' := by simpa [ha] using ha'
  exact ⟨tokens, p, c, a, htokens, hparse, ha, hnil, hc⟩

structure Analysis.Types (a : Analysis) (n : NodeId) (result : Option Ty) : Prop where
  set_iff : ∀ t, a.attributes.slot? (.typeOf n) = some (.set (.type t)) ↔ result = some t
  failed_iff : a.attributes.slot? (.typeOf n) = some .failed ↔ result = none

theorem Analysis.types_of_slot {a : Analysis} {n : NodeId} {o : Option Ty}
    (h : a.attributes.slot? (.typeOf n) = some (.of .type o)) : a.Types n o where
  set_iff t := by cases o <;> simp [h, Slot.of]
  failed_iff := by cases o <;> simp [h, Slot.of]

/-- An analysis that gives every expression, and every name in a constructor, the type that the direct
recursion gives it. -/
structure Analysis.Agrees (a : Analysis) (p : Program) : Prop where
  exprs : ∀ st role e, ⟨st, .expr role e⟩ ∈ p.sites → a.Types e.id ((a.names p).typeIn st role e)
  references : ∀ st ref, ⟨st, .reference ref⟩ ∈ p.sites →
    a.Types ref.node.id ((a.names p).referenceType ref)

theorem Program.analysis_agrees {tokens : List Token} {file : String} {p : Program} {c : Cursor}
    (h : Program.parse tokens file = .ok p c) : ∃ a, p.analyse = .ok a ∧ a.Agrees p := by
  have hp := numbered_of_parse h
  obtain ⟨d, a, ha, hd⟩ := analysed hp
  refine ⟨a, ha, fun st role e hs => ?_, fun st ref hs => ?_⟩
  · exact Analysis.types_of_slot (hd.slot?_expr hp hs)
  · exact Analysis.types_of_slot (hd.slot?_reference hp hs)

/-- A variable that is used in front of its declaration, so that the sum has no type. -/
def earlyText : String := "fun f(n: Int) \x7b\x7d f(v + 1) var v: Int = 2"

theorem Program.analysis_agrees_early :
    ∃ tokens p c a, Token.tokenize earlyText "early" = .ok tokens ∧ Program.parse tokens "early" = .ok p c ∧
      p.body.length = 3 ∧ p.analyse = .ok a ∧ a.Agrees p := by
  obtain ⟨tokens, p, c, htokens, hparse, hlength⟩ := Program.exists_of_reads "early" earlyText
    (fun p => p.body.length = 3) (by decide +kernel)
  obtain ⟨a, ha, htypes⟩ := Program.analysis_agrees hparse
  exact ⟨tokens, p, c, a, htokens, hparse, of_decide_eq_true hlength, ha, htypes⟩

end ScriptAnalysis
