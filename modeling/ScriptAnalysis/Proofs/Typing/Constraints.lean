import ScriptAnalysis.Proofs.Propagation.Silence
import ScriptAnalysis.Proofs.Typing.Completeness

/-!
Well-typed programs. A program whose analysis has no findings meets the typing constraints of all its
statements and expressions (`Program.wellTyped_of_silent`); calls are treated on their own.
-/
namespace ScriptAnalysis

namespace Ty

def IsTruth (t : Ty) : Prop := t = .bool ∨ t.isPlaceholder = true

def IsNumber (t : Ty) : Prop := t.isNumeric = true ∨ t.isPlaceholder = true

theorem eq_void_of_isVoid {t : Ty} (h : t.isVoid = true) : t = .void := by
  unfold isVoid at h
  split at h
  · rfl
  · cases h

theorem eq_of_same_primitive {t : Ty} {q : Primitive} (h : t.same (.primitive q) = true) :
    t = .primitive q := by
  cases t <;> simp_all [same]

end Ty

namespace Reaction.Silent

open Goal (requireBool requireNumber)

variable {final : Attributes} {node place : Node} {t u : Ty} {next : Reaction}

theorem not_reportType {cause : String → Cause} :
    ¬(reportType cause t place next).Silent final node := by
  intro h
  obtain ⟨text, _, h⟩ := h.attempt
  exact not_report h

theorem not_reportTypes {cause : String → String → Cause} :
    ¬(reportTypes cause t u place next).Silent final node := by
  intro h
  obtain ⟨first, _, h⟩ := h.attempt
  obtain ⟨second, _, h⟩ := h.attempt
  exact not_report h

theorem requireBool {cause : String → Cause}
    (h : (Goal.requireBool cause t place next).Silent final node) :
    t.IsTruth ∧ next.Silent final node := by
  unfold Goal.requireBool at h
  obtain ⟨ht, h⟩ := h.of_ite not_reportType
  refine ⟨?_, h⟩
  rcases Bool.or_eq_true_iff.1 ht with hbool | hplaceholder
  · exact .inl (Ty.eq_of_same_primitive hbool)
  · exact .inr hplaceholder

theorem requireNumber {cause : String → Cause}
    (h : (Goal.requireNumber cause t place next).Silent final node) :
    t.IsNumber ∧ next.Silent final node := by
  unfold Goal.requireNumber at h
  obtain ⟨ht, h⟩ := h.of_ite not_reportType
  exact ⟨Bool.or_eq_true_iff.1 ht, h⟩

/-- A literal without findings has no element of type `Void`. -/
theorem literalType {c : Container} {place : Node} {outs : List Attribute} {soFar : Option Ty}
    {elements : List (Node × Ty)} (h : (Reaction.literalType c place outs soFar elements).Silent final node) :
    ∀ x ∈ elements, x.2.isVoid = false := by
  induction elements generalizing soFar with
  | nil => simp
  | cons x rest ih =>
    obtain ⟨element, t⟩ := x
    by_cases hv : t.isVoid = true
    · rw [literalType_void hv] at h
      exact absurd h not_report
    · have hrest : ∃ soFar', (Reaction.literalType c place outs soFar' rest).Silent final node := by
        cases soFar with
        | none => exact ⟨_, literalType_first hv ▸ h⟩
        | some s =>
          rw [literalType_next hv] at h
          split at h
          · exact ⟨_, h⟩
          · exact absurd h not_refuse
      obtain ⟨soFar', hrest⟩ := hrest
      intro y hy
      rcases List.mem_cons.1 hy with rfl | hy
      · simpa using hv
      · exact ih hrest y hy

end Reaction.Silent

namespace Analysis

def exprType? (a : Analysis) (e : Expr) : Option Ty := a.attributes.type? (.typeOf e.id)

def writtenType? (a : Analysis) (w : TypeExpr) : Option Ty := a.attributes.type? (.valueOf w.id)

def binderType? (a : Analysis) (b : Binder) : Option Ty :=
  (a.declaredBy? b.node.id).bind a.declarationType?

end Analysis

/-- The constraints on the types of the parts of an expression other than a call. -/
def Expr.WellTyped (a : Analysis) : Expr → Prop
  | .not _ e => ∃ t, a.exprType? e = some t ∧ t.IsTruth
  | .binary _ op left right => ∃ l r, a.exprType? left = some l ∧ a.exprType? right = some r ∧
    match op.family with
    | .logic => l.IsTruth ∧ r.IsTruth
    | .comparison => l.IsNumber ∧ r.IsNumber
    | .equality => l.comparable r = true
    | .arithmetic => ∃ t, Ty.arithmetic? op l r = some t
  | .assign _ target value => target.isPlace = true ∧
    ∃ t v, a.exprType? target = some t ∧ a.exprType? value = some v ∧ v.assignable t = true
  | .index _ base position => ∃ b i, a.exprType? base = some b ∧ a.exprType? position = some i ∧
    (b.isContainer .array = true ∨ b.isPlaceholder = true) ∧ (i = .int ∨ i.isPlaceholder = true)
  | .literal _ _ elements => ∀ e ∈ elements, ∃ t, a.exprType? e = some t ∧ t.isVoid = false
  | _ => True

/-- The constraints on the types in a statement. -/
def Stmt.WellTyped (a : Analysis) (st : Setting) : Stmt → Prop
  | .variable b value => ∃ t v, a.writtenType? b.type = some t ∧ a.binderType? b = some t ∧
    a.exprType? value = some v ∧ v.assignable t = true
  | .ifThen _ e _ | .ifElse _ e _ _ | .loop _ e _ => ∃ t, a.exprType? e = some t ∧ t.IsTruth
  | .ret _ (some e) => ∀ result, st.result = some result → ∃ t v, a.writtenType? result = some t ∧
    t.isVoid = false ∧ a.exprType? e = some v ∧ v.assignable t = true
  | .ret _ none => ∀ result, st.result = some result → a.writtenType? result = some .void
  | .function _ head inner _ => ∃ t b, a.writtenType? head.result = some t ∧
    a.attributes.flag? (.returnsOf inner.id) = some b ∧ (t.isVoid = false → b = true)
  | .template _ head inner _ => ∃ t b, a.writtenType? head.result = some t ∧
    a.attributes.flag? (.returnsOf inner.id) = some b ∧ (t.isVoid = false → b = true)
  | _ => True

/-- The constraints on the types at a site. -/
def Site.WellTyped (a : Analysis) (s : Site) : Prop :=
  match s.part with
  | .expr _ e => e.WellTyped a
  | .stmt x => x.WellTyped a s.setting
  | _ => True

/-- The obligations of an expression are among those at its node, besides the check of a condition. -/
theorem Site.Leaves.of_expr {d : Draft} {st : Setting} {role : Role} {x : Expr} {e : Entry}
    (h : Site.Leaves d ⟨st, .expr role x⟩ e) :
    ∃ role' e', x.Leaves d st role' e' ∧ ∀ o ∈ e'.obligations, o ∈ e.obligations := by
  cases h with
  | expr _ h => exact ⟨role, e, h, fun o ho => ho⟩
  | condition h => exact ⟨.free, _, h, fun o ho => List.mem_append_left _ ho⟩

/-- Types read for expressions, each with the node it was read for. -/
theorem exists_zip_of_forall₂ {final : Attributes} {es : List Expr} {types : List Ty}
    (h : List.Forall₂ (fun x t => final.type? x = some t)
      ((es.map Expr.node).map fun n => Attribute.typeOf n.id) types) :
    ∀ e ∈ es, ∃ t, final.type? (.typeOf e.id) = some t ∧ (e.node, t) ∈ (es.map Expr.node).zip types := by
  induction es generalizing types with
  | nil => simp
  | cons e rest ih =>
    cases h with
    | @cons _ t _ types ht hrest =>
      intro e' he'
      rcases List.mem_cons.1 he' with rfl | he'
      · exact ⟨t, ht, by simp⟩
      · obtain ⟨t', ht', hzip⟩ := ih hrest e' he'
        exact ⟨t', ht', List.mem_cons_of_mem _ hzip⟩

namespace Program.Analysed

variable {p : Program} {d : Draft} {a : Analysis} {st : Setting}

theorem not_failed (h : p.Analysed d a) (hnil : a.diagnostics = []) (x : Attribute) :
    a.attributes.isFailed x = false := by
  by_contra hx
  exact h.tells x (by simpa using hx) hnil

/-- Without findings, what is owed at a node has run without findings. -/
theorem silent (h : p.Analysed d a) (hnil : a.diagnostics = []) {n : NodeId} {o : Obligation}
    (ho : o ∈ (d.entry n).obligations) :
    (o.goal.react d.tables o.node).Silent a.attributes o.node := by
  have hr : o.rule d.tables ∈ d.rules := List.mem_map.2 ⟨o, (List.mem_filter.1 ho).1, rfl⟩
  have hfate := h.fates _ hr
  rw [hnil] at hfate
  exact hfate.silent (h.not_failed hnil)

theorem wellTyped_expr (h : p.Analysed d a) (hnil : a.diagnostics = []) {role : Role} {x : Expr}
    (hs : ⟨st, .expr role x⟩ ∈ p.sites) : x.WellTyped a := by
  obtain ⟨role', e, hl, hmem⟩ := (h.drafted.leaves _ hs).of_expr
  have hsilent : ∀ o ∈ e.obligations, (o.goal.react d.tables o.node).Silent a.attributes o.node :=
    fun o ho => h.silent hnil (hmem o ho)
  cases hl with
  | not =>
    obtain ⟨t, ht, h⟩ := (hsilent _ (Entry.mem_owing _ _)).readType
    exact ⟨t, ht, h.requireBool.1⟩
  | @arithmetic _ _ op _ _ hop =>
    obtain ⟨l, hl, h⟩ := (hsilent _ (Entry.mem_owing _ _)).readType
    obtain ⟨r, hr, h⟩ := h.readType
    refine ⟨l, r, hl, hr, ?_⟩
    simp only [hop]
    cases ht : Ty.arithmetic? op l r with
    | some t => exact ⟨t, rfl⟩
    | none =>
      simp only [ht] at h
      obtain ⟨_, _, h⟩ := h.attempt
      obtain ⟨_, _, h⟩ := h.attempt
      exact absurd h Reaction.Silent.not_refuse
  | equality hop =>
    obtain ⟨l, hl, h⟩ := (hsilent _ (Entry.mem_owing _ _)).readType
    obtain ⟨r, hr, h⟩ := h.readType
    refine ⟨l, r, hl, hr, ?_⟩
    simp only [hop]
    exact (h.of_ite Reaction.Silent.not_reportTypes).1
  | comparison hop =>
    obtain ⟨l, hl, h⟩ := (hsilent _ (Entry.mem_owing _ _)).readType
    obtain ⟨r, hr, h⟩ := h.readType
    refine ⟨l, r, hl, hr, ?_⟩
    simp only [hop]
    exact ⟨h.requireNumber.1, h.requireNumber.2.requireNumber.1⟩
  | logic hop =>
    obtain ⟨l, hl, h⟩ := (hsilent _ (Entry.mem_owing _ _)).readType
    obtain ⟨r, hr, h⟩ := h.readType
    refine ⟨l, r, hl, hr, ?_⟩
    simp only [hop]
    exact ⟨h.requireBool.1, h.requireBool.2.requireBool.1⟩
  | @assign _ node target value =>
    obtain ⟨t, ht, h⟩ := (hsilent _ (Entry.mem_owing _ _)).readType
    obtain ⟨v, hv, h⟩ := h.readType
    have h := h.set
    split at h
    · exact absurd h Reaction.Silent.not_report
    · next hplace =>
      obtain ⟨hfit, _⟩ := h.of_ite Reaction.Silent.not_report
      exact ⟨by simpa using hplace, t, v, ht, hv, hfit⟩
  | index =>
    obtain ⟨b, hb, h⟩ := (hsilent _ (Entry.mem_owing _ _)).readType
    obtain ⟨i, hi, h⟩ := h.readType
    obtain ⟨hposition, h⟩ := h.of_ite Reaction.Silent.not_report
    refine ⟨b, i, hb, hi, ?_, ?_⟩
    · split at h
      · exact .inl rfl
      · exact .inr rfl
      · obtain ⟨_, _, h⟩ := h.attempt
        exact absurd h Reaction.Silent.not_refuse
    · rcases Bool.or_eq_true_iff.1 hposition with hint | hplaceholder
      · exact .inl (Ty.eq_of_same_primitive hint)
      · exact .inr hplaceholder
  | @literal _ _ _ first rest =>
    have h := hsilent _ (Entry.mem_owing _ _)
    rw [Goal.react_literal] at h
    obtain ⟨types, htypes, h⟩ := h.readTypes
    intro e he
    obtain ⟨t, ht, hzip⟩ := exists_zip_of_forall₂ htypes e he
    exact ⟨t, ht, h.literalType _ hzip⟩
  | emptyFree | emptyValue | emptyArgument =>
    intro e he
    cases he
  | _ => trivial

theorem isTruth_condition (h : p.Analysed d a) (hnil : a.diagnostics = []) {statement : String}
    {x : Expr} (hs : ⟨st, .expr (.condition statement) x⟩ ∈ p.sites) :
    ∃ t, a.exprType? x = some t ∧ t.IsTruth := by
  have hl := h.drafted.leaves _ hs
  generalize he : d.entry (Site.id ⟨st, .expr (.condition statement) x⟩) = e at hl
  cases hl with
  | expr hrole => cases hrole
  | condition =>
    have howed : ⟨x.node, .condition statement⟩ ∈ (d.entry x.id).obligations := by
      rw [show d.entry x.id = _ from he]
      exact Entry.mem_owing _ _
    obtain ⟨t, ht, hsilent⟩ := (h.silent hnil howed).readType
    exact ⟨t, ht, hsilent.requireBool.1⟩

/-- The declared type of a variable is the one written there. -/
theorem binderType_eq (hp : p.Numbered) (h : p.Analysed d a) {b : Binder} {value : Expr}
    (hs : ⟨st, .stmt (.variable b value)⟩ ∈ p.sites) {id : DeclId}
    (hid : (d.entry b.node.id).declared = [id]) :
    a.declaredBy? b.node.id = some id ∧ a.writtenType? b.type = a.declarationType? id := by
  have hmem : id ∈ (d.entry b.node.id).declared := by simp [hid]
  obtain ⟨x, hx, _⟩ := Declarations.mem_idsAt.1 hmem
  have hw : ⟨st, .written b.type⟩ ∈ p.sites := (hp.premise hs (by simp [Site.premises, Site.ofStmt])).1
  have hsite : (d.names p).site b.node.id = some ⟨st, .stmt (.variable b value)⟩ := hp.siteAt_eq hs
  have htype : (d.names p).declarationType id = (d.names p).writtenType st.home b.type := by
    rw [Drafted.declarationType_at hmem]
    simp [Names.typeAt, hsite]
  constructor
  · have hlast : (d.tables.declarations.idsAt b.node.id).getLast? = some id := by
      rw [show d.tables.declarations.idsAt b.node.id = [id] from hid]
      rfl
    rw [Analysis.declaredBy?, h.tables, Declarations.forNode?_eq, hlast]
  · have hwritten := h.slot?_of_input (Drafted.input_written hp h.drafted hw)
    have hdeclared := h.slot?_of_input
      (Drafted.input_declaration hp h.drafted (Declarations.lt_size_of_getElem? hx))
    rw [htype, ← hwritten] at hdeclared
    simp only [Analysis.writtenType?, Analysis.declarationType?, Attributes.type?, Attributes.get?,
      hdeclared]

theorem returns_of_body (h : p.Analysed d a) (hnil : a.diagnostics = []) {n : NodeId} {node inner : Node}
    {result : TypeExpr} (ho : ⟨node, .bodyReturns inner.id result.id⟩ ∈ (d.entry n).obligations) :
    ∃ t b, a.writtenType? result = some t ∧ a.attributes.flag? (.returnsOf inner.id) = some b ∧
      (t.isVoid = false → b = true) := by
  obtain ⟨b, hb, hsilent⟩ := (h.silent hnil ho).readFlag
  obtain ⟨t, ht, hsilent⟩ := hsilent.readType
  obtain ⟨hreturns, _⟩ := hsilent.of_ite Reaction.Silent.not_report
  refine ⟨t, b, ht, hb, fun hvoid => ?_⟩
  simpa [hvoid] using hreturns

theorem wellTyped_stmt (hp : p.Numbered) (h : p.Analysed d a) (hnil : a.diagnostics = []) {x : Stmt}
    (hs : ⟨st, .stmt x⟩ ∈ p.sites) : x.WellTyped a st := by
  have hl := h.drafted.leaves _ hs
  have hsilent : ∀ o ∈ (d.entry x.id).obligations,
      (o.goal.react d.tables o.node).Silent a.attributes o.node := fun o ho => h.silent hnil ho
  have hpremise : ∀ c ∈ Site.ofStmt st x, c ∈ p.sites := fun c hc => (hp.premise hs hc).1
  generalize he : d.entry (Site.id ⟨st, .stmt x⟩) = e at hl
  cases hl with
  | stmt hl =>
    cases hl with
    | @«variable» b value id =>
      obtain ⟨hdeclared, hwritten⟩ := h.binderType_eq hp hs (congrArg Entry.declared he)
      have howed : ⟨b.node, .initializer id b.name value.node⟩ ∈ (d.entry b.node.id).obligations := by
        rw [show d.entry b.node.id = _ from he]
        exact Entry.mem_owing _ _
      obtain ⟨t, ht, hfit⟩ := (hsilent _ howed).readType
      obtain ⟨v, hv, hfit⟩ := hfit.readType
      refine ⟨t, v, hwritten.trans ht, ?_, hv, (hfit.of_ite Reaction.Silent.not_reportTypes).1⟩
      simp only [Analysis.binderType?, hdeclared, Option.bind_some]
      exact ht
    | @function node head inner body =>
      have howed : ⟨node, .bodyReturns inner.id head.result.id⟩ ∈ (d.entry node.id).obligations := by
        rw [show d.entry node.id = _ from he]
        exact Entry.mem_owing _ _
      exact h.returns_of_body hnil howed
    | @template node head inner body =>
      have howed : ⟨node, .bodyReturns inner.id head.result.id⟩ ∈ (d.entry node.id).obligations := by
        rw [show d.entry node.id = _ from he]
        exact Entry.mem_owing _ _
      exact h.returns_of_body hnil howed
    | ifThen | ifElse | loop =>
      exact h.isTruth_condition hnil (hpremise _ List.mem_cons_self)
    | @ret node value =>
      cases value with
      | none =>
        intro result hresult
        have howed : ⟨node, .emptyReturn result.id⟩ ∈ (d.entry node.id).obligations := by
          rw [show d.entry node.id = _ from he]
          simp [Entry.ofReturn, hresult]
        obtain ⟨t, ht, hvoid⟩ := (hsilent _ howed).readType
        have hisVoid := (hvoid.of_ite Reaction.Silent.not_report).1
        rw [Ty.eq_void_of_isVoid hisVoid] at ht
        exact ht
      | some value =>
        intro result hresult
        have howed : ⟨node, .valueReturn result.id value.node⟩ ∈ (d.entry node.id).obligations := by
          rw [show d.entry node.id = _ from he]
          simp [Entry.ofReturn, hresult]
        obtain ⟨t, ht, hfit⟩ := (hsilent _ howed).readType
        obtain ⟨v, hv, hfit⟩ := hfit.readType
        split at hfit
        · exact absurd hfit Reaction.Silent.not_report
        · next hvoid =>
          exact ⟨t, v, ht, by simpa using hvoid, hv,
            (hfit.of_ite Reaction.Silent.not_reportTypes).1⟩
    | _ => trivial

end Program.Analysed

/-- An analysis whose types meet the constraints at all sites of a program. -/
def Analysis.WellTyped (a : Analysis) (p : Program) : Prop := ∀ s ∈ p.sites, s.WellTyped a

theorem Program.wellTyped_of_silent {tokens : List Token} {file : String} {p : Program} {c : Cursor}
    {a : Analysis} (h : Program.parse tokens file = .ok p c) (ha : p.analyse = .ok a)
    (hnil : a.diagnostics = []) : a.WellTyped p := by
  have hp := numbered_of_parse h
  obtain ⟨d, a', ha', hd⟩ := analysed hp
  obtain rfl : a = a' := by simpa [ha] using ha'
  rintro ⟨st, part⟩ hs
  cases part with
  | expr role e => exact hd.wellTyped_expr hnil hs
  | stmt x => exact hd.wellTyped_stmt hp hnil hs
  | _ => trivial

def countdownText : String :=
  "fun f(n: Int): Int \x7b var a: Float[] = [1, 2.5] while (n > 0 && !(a[n] == 0)) \x7b n = n - 1 \x7d
  if (n < 1) return n else return 0 \x7d"

theorem Program.wellTyped_countdown :
    ∃ tokens p c a, Token.tokenize countdownText "countdown" = .ok tokens ∧
      Program.parse tokens "countdown" = .ok p c ∧ p.analyse = .ok a ∧ a.diagnostics = [] ∧
      a.WellTyped p := by
  obtain ⟨tokens, p, c, a, htokens, hparse, ha, hnil, _⟩ :=
    Program.exists_of_accepts 8 "countdown" countdownText (fun _ _ => true) (by decide +kernel)
  exact ⟨tokens, p, c, a, htokens, hparse, ha, hnil, Program.wellTyped_of_silent hparse ha hnil⟩

end ScriptAnalysis
