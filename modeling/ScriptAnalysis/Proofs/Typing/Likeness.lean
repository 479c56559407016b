import ScriptAnalysis.Proofs.Propagation.Likeness
import ScriptAnalysis.Proofs.Table.Likeness
import ScriptAnalysis.Proofs.Tree.Likeness
import ScriptAnalysis.Proofs.Typing.Rules.Call
import ScriptAnalysis.Proofs.Typing.Tells

/-!
Goals that react alike. Goals that differ in places, over tables that differ in places only, wait for and
settle the same attributes, and what they do is alike in every frame that allows what they read, write and
find (`Goal.Framed`, `Goal.Like.react`). In particular obligations up to places lead to rules that are alike
(`Obligation.Like.rule`).
-/
namespace ScriptAnalysis

open Reaction (Frame)

variable {K : Placing} {F : Frame}

/-! ### Reactions -/

/-- Attributes that reactions with given inputs may read in each other's place. -/
def Reaction.Frame.Pairs (F : Frame) (inputs inputs' : List Attribute) (a a' : Attribute) : Prop :=
  a ∈ inputs ∧ a' ∈ inputs' ∧ F.reads a a'

namespace Reaction

variable {inputs inputs' : List Attribute} {a a' : Attribute}

section Reads

variable (ha : F.Pairs inputs inputs' a a')
include ha

theorem like_readValue {next next' : Value → Reaction}
    (h : ∀ v, F.holds a v → (next v).Like F inputs inputs' (next' v)) :
    (readValue a next).Like F inputs inputs' (readValue a' next') :=
  .read ha.1 ha.2.1 ha.2.2 rfl h

theorem like_readType {next next' : Ty → Reaction}
    (h : ∀ t, F.holds a (.type t) → (next t).Like F inputs inputs' (next' t)) :
    (readType a next).Like F inputs inputs' (readType a' next') := by
  refine like_readValue ha fun v hv => ?_
  cases v with
  | type t => exact h t hv
  | _ => exact .fault

theorem like_readFlag {next next' : Bool → Reaction}
    (h : ∀ b, (next b).Like F inputs inputs' (next' b)) :
    (readFlag a next).Like F inputs inputs' (readFlag a' next') := by
  refine like_readValue ha fun v _ => ?_
  cases v with
  | flag b => exact h b
  | _ => exact .fault

theorem like_readDecl {next next' : DeclId → Reaction}
    (h : ∀ i, (next i).Like F inputs inputs' (next' i)) :
    (readDecl a next).Like F inputs inputs' (readDecl a' next') := by
  refine like_readValue ha fun v _ => ?_
  cases v with
  | decl i => exact h i
  | _ => exact .fault

theorem like_readScope {next next' : ScopeId → Reaction}
    (h : ∀ s, F.holds a (.scope s) → (next s).Like F inputs inputs' (next' s)) :
    (readScope a next).Like F inputs inputs' (readScope a' next') := by
  refine like_readValue ha fun v hv => ?_
  cases v with
  | scope s => exact h s hv
  | _ => exact .fault

end Reads

theorem like_readTypes {as : List Attribute} (has : ∀ a ∈ as, F.Pairs inputs inputs' a a)
    {next next' : List Ty → Reaction} (h : ∀ ts, (next ts).Like F inputs inputs' (next' ts)) :
    (readTypes as next).Like F inputs inputs' (readTypes as next') := by
  induction as generalizing next next' with
  | nil => exact h []
  | cons a as ih =>
    rw [List.forall_mem_cons] at has
    exact like_readType has.1 fun t _ => ih has.2 fun ts => h (t :: ts)

theorem like_readAllFlags {as : List Attribute} (has : ∀ a ∈ as, F.Pairs inputs inputs' a a)
    {next next' : Bool → Reaction} (h : ∀ b, (next b).Like F inputs inputs' (next' b)) :
    (readAllFlags as next).Like F inputs inputs' (readAllFlags as next') := by
  induction as with
  | nil => exact h true
  | cons a as ih =>
    rw [List.forall_mem_cons] at has
    refine like_readFlag has.1 fun b => ?_
    cases b with
    | true => exact ih has.2
    | false => exact h false

theorem like_attempt {α : Type} {Q : α → α → Prop} {x y : Except Fault α} (hx : Follows Q x y)
    {next next' : α → Reaction}
    (h : ∀ a b, x = .ok a → Q a b → (next a).Like F inputs inputs' (next' b)) :
    (attempt x next).Like F inputs inputs' (attempt y next') := by
  cases x with
  | error f => exact .fault
  | ok a =>
    obtain ⟨b, rfl, hab⟩ := hx a rfl
    exact h a b rfl hab

theorem like_attempt_same {α : Type} {x y : Except Fault α} (hx : Follows Eq x y)
    {next next' : α → Reaction} (h : ∀ a, x = .ok a → (next a).Like F inputs inputs' (next' a)) :
    (attempt x next).Like F inputs inputs' (attempt y next') :=
  like_attempt hx fun a _ ha hab => hab ▸ h a ha

theorem like_withText {t : Ty} {next next' : String → Reaction}
    (h : ∀ text, (next text).Like F inputs inputs' (next' text)) :
    (withText t next).Like F inputs inputs' (withText t next') :=
  like_attempt_same (fun text htext => ⟨text, htext, rfl⟩) fun text _ => h text

theorem like_failAll {as : List Attribute} (has : ∀ a ∈ as, F.writes a) :
    (failAll as .done).Like F inputs inputs' (failAll as .done) := by
  induction as with
  | nil => exact .done
  | cons a as ih =>
    rw [List.forall_mem_cons] at has
    exact .fail has.1 (ih has.2)

theorem like_copyType (ha : F.Pairs inputs inputs' a a) {b : Attribute} (hb : F.writes b) :
    (copyType [a] [b]).Like F inputs inputs' (copyType [a] [b]) :=
  like_readType ha fun _ _ => .set hb .done

theorem like_copyLater (ha : F.reads a a) {b : Attribute} (hb : F.writes b) :
    (copyLater a b).Like F inputs inputs' (copyLater a b) := by
  have hself := List.mem_singleton_self a
  exact .chain (by simpa using ha) (by simpa using hb) (like_copyType ⟨hself, hself, ha⟩ hb) .done

theorem like_refuse {x x' : Diagnostic} (hx : F.told x x') {as : List Attribute}
    (has : ∀ a ∈ as, F.writes a) : (refuse x as).Like F inputs inputs' (refuse x' as) :=
  .report hx (like_failAll has)

section Reports

variable {n n' : Node} {t u : Ty} {next next' : Reaction} (h : next.Like F inputs inputs' next')
include h

theorem like_reportType {cause : String → Cause}
    (hx : ∀ text, F.told (.atNode (cause text) n) (.atNode (cause text) n')) :
    (reportType cause t n next).Like F inputs inputs' (reportType cause t n' next') :=
  like_withText fun text => .report (hx text) h

theorem like_reportTypes {cause : String → String → Cause}
    (hx : ∀ first second, F.told (.atNode (cause first second) n) (.atNode (cause first second) n')) :
    (reportTypes cause t u n next).Like F inputs inputs' (reportTypes cause t u n' next') :=
  like_withText fun first => like_withText fun second => .report (hx first second) h

theorem like_requireBool {cause : String → Cause}
    (hx : ∀ text, F.told (.atNode (cause text) n) (.atNode (cause text) n')) :
    (Goal.requireBool cause t n next).Like F inputs inputs' (Goal.requireBool cause t n' next') := by
  unfold Goal.requireBool
  split
  · exact h
  · exact like_reportType h hx

theorem like_requireNumber {cause : String → Cause}
    (hx : ∀ text, F.told (.atNode (cause text) n) (.atNode (cause text) n')) :
    (Goal.requireNumber cause t n next).Like F inputs inputs' (Goal.requireNumber cause t n' next') := by
  unfold Goal.requireNumber
  split
  · exact h
  · exact like_reportType h hx

end Reports

/-- Checking arguments can only break at the text of a type. -/
theorem checkArguments_ne_fault {f : Fault} (hf : f ≠ .shortTemplate) (index : Nat)
    (arguments : List Node) (received expected : List Ty) :
    checkArguments index arguments received expected .done ≠ .fault f := by
  generalize hn : Reaction.done = next
  fun_induction checkArguments index arguments received expected next with
  | case1 index argument arguments r received e expected next rest hfit ih => exact ih hn
  | case2 index argument arguments r received e expected next rest hfit ih =>
    unfold reportTypes withText attempt
    split
    · split
      · simp
      · next f' hrender =>
        rw [Ty.eq_shortTemplate_of_render hrender]
        simpa using hf.symm
    · next f' hrender =>
      rw [Ty.eq_shortTemplate_of_render hrender]
      simpa using hf.symm
  | case3 => simp [← hn]

theorem like_checkArguments {ns ns' : List Node} (hns : List.Forall₂ K.place ns ns')
    (hx : ∀ i e r, ∀ x ∈ ns, ∀ x', K.place x x' →
      F.told (.atNode (.incompatibleArgument i e r) x) (.atNode (.incompatibleArgument i e r) x'))
    {next next' : Reaction} (h : next.Like F inputs inputs' next') (index : Nat) (rs es : List Ty) :
    (checkArguments index ns rs es next).Like F inputs inputs' (checkArguments index ns' rs es next') := by
  induction hns generalizing index rs es with
  | nil => exact h
  | cons hn _ ih =>
    cases rs with
    | nil => exact h
    | cons r rs =>
      cases es with
      | nil => exact h
      | cons e es =>
        have hrest := ih (fun i e r x hmem => hx i e r x (List.mem_cons_of_mem _ hmem)) (index + 1) rs es
        simp only [checkArguments]
        split
        · exact hrest
        · exact like_reportTypes hrest fun _ _ => hx _ _ _ _ List.mem_cons_self _ hn

section Literals

variable {n n' : Node} (hw : F.writes (.typeOf n.id)) (c : Container)
include hw

theorem like_literalType
    (hnone : F.told (.atNode (.noCommonSupertype c.word) n) (.atNode (.noCommonSupertype c.word) n'))
    {ns ns' : List Node} (h : List.Forall₂ K.place ns ns')
    (hvoid : ∀ x ∈ ns, ∀ x', K.place x x' →
      F.told (.atNode (.voidElement c.word) x) (.atNode (.voidElement c.word) x'))
    (ts : List Ty) (soFar : Option Ty) :
    (literalType c n [.typeOf n.id] soFar (ns.zip ts)).Like F inputs inputs'
      (literalType c n' [.typeOf n.id] soFar (ns'.zip ts)) := by
  have hend : ∀ soFar, (literalType c n [.typeOf n.id] soFar []).Like F inputs inputs'
      (literalType c n' [.typeOf n.id] soFar []) := by
    intro soFar
    cases soFar <;> simp only [literalType]
    · exact like_failAll (by simpa using hw)
    · exact .set hw .done
  induction h generalizing ts soFar with
  | nil => exact hend soFar
  | cons hm _ ih =>
    cases ts with
    | nil => exact hend soFar
    | cons t ts =>
      have hrest := ih (fun x hx => hvoid x (List.mem_cons_of_mem _ hx)) ts
      have hfirst := hvoid _ List.mem_cons_self _ hm
      cases soFar with
      | none =>
        simp only [List.zip_cons_cons, literalType]
        split
        · exact .report hfirst (hrest none)
        · exact hrest (some t)
      | some s =>
        simp only [List.zip_cons_cons, literalType]
        split
        · exact .report hfirst (hrest (some s))
        · split
          · exact hrest _
          · exact like_refuse hnone (by simpa using hw)

theorem like_emptyLiteral
    (hx : F.told (.atNode (.uninferableLiteral c.word) n) (.atNode (.uninferableLiteral c.word) n'))
    (o : Option Ty) : (emptyLiteral c n [.typeOf n.id] o).Like F inputs inputs'
      (emptyLiteral c n' [.typeOf n.id] o) := by
  simp only [emptyLiteral]
  split
  · split
    · exact .set hw .done
    · exact like_refuse hx (by simpa using hw)
  · exact like_refuse hx (by simpa using hw)

end Literals

end Reaction

/-! ### Goals -/

theorem OverloadSite.of?_of_like : ∀ (e : Expr) {e' : Expr}, e.Like K e' → of? e = of? e'
  | .symbol _, _, .symbol hr => congrArg (some ∘ name) (K.place_id hr.node)
  | .paren _ e, .paren _ e', .paren _ he => (of?_of_like e he : of? e = of? e')
  | .member _ .cls _ _, _, .member _ he => congrArg (some ∘ element) he.id
  | .member _ .struct _ _, _, .member _ _ => rfl
  | .int _ _, _, .int _ | .float _ _, _, .float _ | .string _ _, _, .string _
  | .literal _ _ _, _, .literal _ _ | .not _ _, _, .not _ _ | .binary _ _ _ _, _, .binary _ _ _
  | .assign _ _ _, _, .assign _ _ _ | .call _ _ _, _, .call _ _ _
  | .templateCall _ _ _ _, _, .templateCall _ _ _ _ | .index _ _ _, _, .index _ _ _
  | .construct _ _ _, _, .construct _ _ => rfl

theorem Callee.of_like {e e' : Expr} (h : e.Like K e') : Callee.of e = Callee.of e' := by
  rw [Callee.of, Callee.of, h.id, e.render_of_like h, e.calleeName?_of_like h, OverloadSite.of?_of_like e h]

/-- Goals that name other nodes by their numbers only. -/
def Goal.isPlain : Goal → Bool
  | .initializer _ _ _ | .valueReturn _ _ | .literal _ _ | .logic _ _ | .comparison _ _
  | .assignment _ _ _ | .index _ _ | .call _ _ | .templateCall _ _ _ _ => false
  | _ => true

inductive Goal.Like (K : Placing) : Goal → Goal → Prop
  | plain {g} (h : g.isPlain = true) : Like K g g
  | initializer {d name v v'} (hv : K.place v v') : Like K (.initializer d name v) (.initializer d name v')
  | valueReturn {r v v'} (hv : K.place v v') : Like K (.valueReturn r v) (.valueReturn r v')
  | literal {c ns ns'} (hns : List.Forall₂ K.place ns ns') : Like K (.literal c ns) (.literal c ns')
  | logic {l l' r r'} (hl : K.place l l') (hr : K.place r r') : Like K (.logic l r) (.logic l' r')
  | comparison {l l' r r'} (hl : K.place l l') (hr : K.place r r') :
      Like K (.comparison l r) (.comparison l' r')
  | assignment {t t' b v} (ht : K.place t t') : Like K (.assignment t b v) (.assignment t' b v)
  | index {i p p'} (hp : K.place p p') : Like K (.index i p) (.index i p')
  | call {callee ns ns'} (hcallee : K.calls callee.id) (hns : List.Forall₂ K.place ns ns') :
      Like K (.call callee ns) (.call callee ns')
  | templateCall {i text ts ns ns'} (hns : List.Forall₂ K.place ns ns') :
      Like K (.templateCall i text ts ns) (.templateCall i text ts ns')

theorem Placing.typesOf {ns ns' : List Node} (h : List.Forall₂ K.place ns ns') :
    ns.map (fun n => Attribute.typeOf n.id) = ns'.map (fun n => Attribute.typeOf n.id) := by
  induction h with
  | nil => rfl
  | cons hn _ ih => rw [List.map_cons, List.map_cons, ih, K.place_id hn]

namespace Goal

variable {g g' : Goal} {n n' : Node}

theorem Like.inputs (h : g.Like K g') (hn : n.id = n'.id) : g.inputs n = g'.inputs n' := by
  cases h with
  | plain h => cases g <;> first | exact congrArg (fun i => [Attribute.typeOf i]) hn | rfl
  | initializer hv | valueReturn hv => simp only [Goal.inputs, K.place_id hv]
  | literal hns | call _ hns | templateCall hns => simp only [Goal.inputs, K.typesOf hns]
  | logic hl hr | comparison hl hr => simp only [Goal.inputs, K.place_id hl, K.place_id hr]
  | assignment ht => simp only [Goal.inputs, K.place_id ht]
  | index hp => simp only [Goal.inputs, K.place_id hp]

theorem Like.outputs (h : g.Like K g') (hn : n.id = n'.id) : g.outputs n = g'.outputs n' := by
  cases h with
  | plain h => cases g <;> simp only [Goal.outputs, hn]
  | _ => simp only [Goal.outputs, hn]

/-- Goals at nodes that are related only to themselves are equal. -/
theorem Like.eq (hK : ∀ {n n'}, K.place n n' → n = n') (h : g.Like K g') : g = g' := by
  have hall : ∀ {ns ns' : List Node}, List.Forall₂ K.place ns ns' → ns = ns' := fun hns =>
    List.forall₂_eq_eq_eq ▸ hns.imp fun _ _ => hK
  cases h with
  | plain => rfl
  | initializer hv | valueReturn hv => rw [hK hv]
  | literal hns | call _ hns | templateCall hns => rw [hall hns]
  | logic hl hr | comparison hl hr => rw [hK hl, hK hr]
  | assignment ht => rw [hK ht]
  | index hp => rw [hK hp]

end Goal

/-! ### What goals do -/

def Goal.writes (node : Node) (g : Goal) : List Attribute :=
  match g with
  | .call _ _ | .member _ _ _ => .declOf node.id :: g.outputs node
  | _ => g.outputs node

structure Goal.Framed (F : Frame) (K : Placing) (t : Tables) (node : Node) (g : Goal) : Prop where
  told : ∀ {x x'}, g.Tells t node x → x.Like K.place x' → F.told x x'
  reads : ∀ a ∈ g.inputs node, F.reads a a
  decls : ∀ i k, F.reads ⟨.decl i, k⟩ ⟨.decl i, k⟩
  writes : ∀ a ∈ g.writes node, F.writes a
  passes : ∀ {callee arguments}, g = .call callee arguments →
    F.passes (.declOf callee.id) (.declOf callee.id) (.declOf node.id)

inductive Callee.Sees (t : Tables) (holds : Attribute → Value → Prop) (callee : Callee) :
    List ScopeId → Prop
  | nowhere (h : callee.site = none) : Sees t holds callee []
  | name {symbol s} (h : callee.site = some (.name symbol)) (hs : holds (.scopeOf symbol) (.scope s)) :
      Sees t holds callee [s]
  | element {stem owner scopes} (h : callee.site = some (.element stem))
      (hu : holds (.typeOf stem) (.type (.composite .cls owner)))
      (hscopes : t.classScopes owner.declaration = .ok scopes) : Sees t holds callee scopes
  | other {stem u} (h : callee.site = some (.element stem)) (hu : holds (.typeOf stem) (.type u))
      (hother : ∀ owner, u ≠ .composite .cls owner) : Sees t holds callee []

namespace Goal

open Attribute Reaction

variable {t t' : Tables} {n n' : Node} {inputs inputs' : List Attribute}

theorem Framed.pairs {g : Goal} (hf : g.Framed F K t n) {a : Attribute} (ha : a ∈ g.inputs n) :
    F.Pairs (g.inputs n) (g.inputs n) a a :=
  ⟨ha, ha, hf.reads a ha⟩

section Tables

variable (h : t.Alike t') (hn : K.place n n')
include h hn

theorem like_nameType {s : ScopeId} {name : String} (hf : (Goal.typeName s name).Framed F K t n) :
    (nameType t n [valueOf n.id] s name).Like F inputs inputs' (nameType t' n' [valueOf n.id] s name) := by
  have hw : ∀ a ∈ [valueOf n.id], F.writes a := hf.writes
  unfold nameType
  rw [h.scopes, ← K.place_id hn]
  refine like_attempt_same (fun o ho => ⟨o, ho, rfl⟩) fun o _ => ?_
  cases o with
  | none => exact like_refuse (hf.told .unresolvedType (.atNode hn)) hw
  | some found =>
    refine like_attempt (Declarations.follows_get h.declarations _) fun x x' _ hx => ?_
    rw [← show x.kind = x'.kind from congrArg (·.kind) hx]
    split
    · exact like_copyLater (hf.decls _ _) (hw _ List.mem_cons_self)
    · exact like_refuse (hf.told .notAType (.atNode hn)) hw

theorem like_resolveLate {s : ScopeId} {name : String} (hf : (Goal.lateReference s name).Framed F K t n) :
    (resolveLate t n [declOf n.id, scopeOf n.id, typeOf n.id] s name).Like F inputs inputs'
      (resolveLate t' n' [declOf n.id, scopeOf n.id, typeOf n.id] s name) := by
  have hw : ∀ a ∈ [declOf n.id, scopeOf n.id, typeOf n.id], F.writes a := hf.writes
  unfold resolveLate
  rw [← h.scopes, ← K.place_id hn]
  refine like_attempt_same (fun o ho => ⟨o, ho, rfl⟩) fun o hlookup => ?_
  cases o with
  | none =>
    have hx : (Goal.lateReference s name).Tells t n (.atNode (.unresolvedName name) n) := .late hlookup
    exact like_refuse (hf.told hx (.atNode hn)) hw
  | some found =>
    simp only [List.forall_mem_cons] at hw
    refine .set hw.1 (.set hw.2.1
      (like_attempt (Declarations.follows_get h.declarations _) fun x x' hget hx => ?_))
    rw [← show x.kind = x'.kind from congrArg (·.kind) hx]
    split
    · next hk =>
      have hx : (Goal.lateReference s name).Tells t n (.atNode (.usedBeforeDeclaration name) n) :=
        .late ⟨found, x, hlookup, hget, hk⟩
      exact like_refuse (hf.told hx (.atNode hn)) (by simpa using hw.2.2)
    · exact like_copyLater (hf.decls _ _) hw.2.2.1

theorem like_accessMember {c : Composite} {id : NodeId} {name : String}
    (hf : (Goal.member c id name).Framed F K t n) (stem : Ty) :
    (accessMember t n [typeOf n.id] c name stem).Like F inputs inputs'
      (accessMember t' n' [typeOf n.id] c name stem) := by
  have hd : F.writes (declOf n.id) := hf.writes _ List.mem_cons_self
  have hw : F.writes (typeOf n.id) := hf.writes _ (List.mem_cons_of_mem _ List.mem_cons_self)
  have hall : ∀ a ∈ [typeOf n.id], F.writes a := by simpa using hw
  unfold accessMember
  rw [← K.place_id hn]
  split
  · split
    · exact .set hw .done
    · exact like_refuse (hf.told .nonLength (.atNode hn)) hall
  · dsimp only
    split
    · refine like_attempt_same (h.members c _) fun is _ =>
        like_attempt_same (Declarations.follows_findMember h.declarations is name) fun o _ => ?_
      cases o with
      | none => exact like_refuse (hf.told .missingMember (.atNode hn)) hall
      | some d => exact .set hd (like_copyLater (hf.decls _ _) hw)
    · exact like_withText fun _ => like_refuse (hf.told .invalidMemberTarget (.atNode hn)) hall

theorem like_constructorType {c : Composite} {ref : NodeId} {name : String}
    (hf : (Goal.construct c ref name).Framed F K t n) (d : DeclId) :
    (constructorType t n [typeOf n.id] c name d).Like F inputs inputs'
      (constructorType t' n' [typeOf n.id] c name d) := by
  have hw : ∀ a ∈ [typeOf n.id], F.writes a := hf.writes
  refine like_attempt (Declarations.follows_get h.declarations d) fun x x' _ hx => ?_
  simp only [← show x.kind = x'.kind from congrArg (·.kind) hx, ← K.place_id hn]
  split
  · next fields _ =>
    have hreads : ∀ a ∈ declaredBy d :: fields.map typeOfDecl, F.reads a a := by
      simp only [List.forall_mem_cons, List.forall_mem_map]
      exact ⟨hf.decls _ _, fun i _ => hf.decls i _⟩
    refine .chain hreads hw ?_ .done
    have hpairs : ∀ a (_ : a ∈ declaredBy d :: fields.map typeOfDecl), F.Pairs _ _ a a :=
      fun a ha => ⟨ha, ha, hreads a ha⟩
    rw [buildConstructor_eq]
    exact like_readType (hpairs _ List.mem_cons_self) fun _ _ =>
      like_readTypes (fun a ha => hpairs a (List.mem_cons_of_mem _ ha)) fun _ =>
        .set (hw _ List.mem_cons_self) .done
  · exact like_refuse (hf.told .notConstructible (.atNode hn)) hw

omit hn in
theorem like_overloadScopes {callee callee' : Callee} (hsite : callee.site = callee'.site) {as as' : List Attribute}
    {i : Nat} (has : as[i]? = callee.site.map OverloadSite.attr) (has' : as'[i]? = callee.site.map OverloadSite.attr)
    (hattr : ∀ site ∈ callee.site, F.Pairs inputs inputs' site.attr site.attr)
    {next next' : List ScopeId → Reaction}
    (hnext : ∀ ss, callee.Sees t F.holds ss → (next ss).Like F inputs inputs' (next' ss)) :
    (overloadScopes t as callee.site i next).Like F inputs inputs' (overloadScopes t' as' callee'.site i next') := by
  unfold overloadScopes
  rw [← hsite]
  split
  · next hs => exact hnext [] (.nowhere hs)
  · next symbol hs =>
    rw [hs] at has has'
    rw [scopeAt_eq has, scopeAt_eq has']
    exact like_readScope (hattr _ hs) fun s hv => hnext [s] (.name hs hv)
  · next stem hs =>
    rw [hs] at has has'
    rw [typeAt_eq has, typeAt_eq has']
    refine like_readType (hattr _ hs) fun u hv => ?_
    split
    · exact like_attempt_same (h.classScopes _) fun ss hss => hnext ss (.element hs hv hss)
    · next hother => exact hnext [] (.other hs hv hother)

end Tables

section Calls

variable (hn : K.place n n') {callee callee' : Callee} {ns ns' : List Node}
  (hns : List.Forall₂ K.place ns ns')
  (htold : ∀ {x x'}, (Goal.call callee ns).Tells t n x → x.Like K.place x' → F.told x x')
  (hdecls : ∀ i k, F.reads ⟨.decl i, k⟩ ⟨.decl i, k⟩) (hw : F.writes (typeOf n.id))
include hn htold hdecls hw

theorem like_overloadedCall (is : List DeclId) (hd : F.writes (declOf n.id)) (rs : List Ty) (arity : Nat) :
    (overloadedCall n is rs arity (is.map typeOfDecl) [typeOf n.id]).Like F (is.map typeOfDecl) (is.map typeOfDecl)
      (overloadedCall n' is rs arity (is.map typeOfDecl) [typeOf n.id]) := by
  have hpairs : ∀ a ∈ is.map typeOfDecl, F.Pairs (is.map typeOfDecl) (is.map typeOfDecl) a a := by
    intro a ha
    obtain ⟨i, _, rfl⟩ := List.mem_map.1 ha
    exact ⟨ha, ha, hdecls i _⟩
  rw [overloadedCall_eq, K.place_id hn, overloadedCall_eq]
  refine like_readTypes hpairs fun ts => ?_
  rw [← K.place_id hn]
  split
  · exact .set hw (.set hd .done)
  · exact like_refuse (htold .noMatchingOverload (.atNode hn)) (by simpa using hw)

include hns

/-- Calls whose callees have the same functions of their name go on alike, if either what is selected may be
written or the declaration of the callee passed on. -/
theorem like_decideCall (r : Ty) (ps rs : List Ty) (is : List DeclId)
    (hd : if 1 < is.length then F.writes (declOf n.id)
      else F.passes (declOf callee.id) (declOf callee'.id) (declOf n.id)) :
    (decideCall n [typeOf n.id] callee.id ns r ps rs is).Like F inputs inputs'
      (decideCall n' [typeOf n.id] callee'.id ns' r ps rs is) := by
  simp only [decideCall, ← K.place_id hn]
  split at hd
  · next hmany =>
    rw [if_pos hmany, if_pos hmany]
    refine .chain ?_ (by simpa using hw) (like_overloadedCall hn htold hdecls hw is hd rs _) .done
    simp only [List.forall_mem_map]
    exact fun i _ => hdecls i _
  · next hfew =>
    rw [if_neg hfew, if_neg hfew]
    split
    · exact like_refuse (htold .wrongArity (.atNode hn)) (by simpa using hw)
    · refine .set hw ?_
      refine .pass (b := declOf n.id) hd (checkArguments_ne_fault (by decide) 0 ns rs ps)
        (checkArguments_ne_fault (by decide) 0 ns rs ps) ?_
      exact like_checkArguments hns (fun _ _ _ _ hx _ hxx => htold (.argument hx) (.atNode hxx)) .done 0 rs ps

theorem like_call (h : t.Alike t') (hname : callee.name = callee'.name)
    (hsite : callee.site = callee'.site)
    (htext : F.told (.atNode (.notCallable callee.text) n) (.atNode (.notCallable callee'.text) n'))
    (hcallee : F.Pairs inputs inputs' (typeOf callee.id) (typeOf callee'.id))
    (harguments : ∀ a ∈ ns.map (typeOf ·.id), F.Pairs inputs inputs' a a)
    (hattr : ∀ site ∈ callee.site, F.Pairs inputs inputs' site.attr site.attr)
    (hd : ∀ ss, callee.Sees t F.holds ss → if 1 < (callee.overloads t ss).length
      then F.writes (declOf n.id) else F.passes (declOf callee.id) (declOf callee'.id) (declOf n.id)) :
    ((Goal.call callee ns).react t n).Like F inputs inputs' ((Goal.call callee' ns').react t' n') := by
  have hoverloads : ∀ ss, callee'.overloads t' ss = callee.overloads t ss := fun ss => by
    rw [Callee.overloads, Callee.overloads, ← h.signatures, ← hname]
  rw [react_call, react_call, ← K.typesOf hns, ← K.place_id hn]
  refine like_readType hcallee fun u _ => ?_
  split
  · rw [← hns.length_eq]
    refine like_readTypes harguments fun rs => like_overloadScopes h hsite (site_of_inputs_call ..)
      (hsite ▸ hns.length_eq ▸ site_of_inputs_call ..) hattr fun ss hss => ?_
    rw [hoverloads]
    exact like_decideCall hn hns htold hdecls hw _ _ rs _ (hd ss hss)
  · exact like_refuse htext (by simpa using hw)

end Calls

variable (t') in
theorem like_templateCall (hn : K.place n n') {callee : NodeId} {text text' : String}
    {types : List NodeId} {ns ns' : List Node} (hns : List.Forall₂ K.place ns ns')
    (hf : (Goal.templateCall callee text types ns).Framed F K t n)
    (htext : F.told (.atNode (.notATemplate text) n) (.atNode (.notATemplate text') n')) :
    ((Goal.templateCall callee text types ns).react t n).Like F
      (Goal.inputs n (.templateCall callee text types ns)) (Goal.inputs n (.templateCall callee text types ns))
      ((Goal.templateCall callee text' types ns').react t' n') := by
  have hw : ∀ a ∈ [typeOf n.id], F.writes a := hf.writes
  rw [react_templateCall, react_templateCall, ← K.place_id hn, ← K.typesOf hns, ← hns.length_eq]
  refine like_readType (hf.pairs (by simp [Goal.inputs])) fun u _ => ?_
  split
  · refine like_attempt_same (fun x hx => ⟨x, hx, rfl⟩) fun x _ => ?_
    obtain ⟨placeholders, expected⟩ := x
    dsimp only
    split
    · exact like_refuse (hf.told .templateArity (.atNode hn)) hw
    · split
      · exact like_refuse (hf.told .typeArgumentCount (.atNode hn)) hw
      · refine like_readTypes (fun a ha => hf.pairs ?_) fun gs =>
          like_readTypes (fun a ha => hf.pairs ?_) fun rs => ?_
        · simp_all [Goal.inputs]
        · simp_all [Goal.inputs]
        · exact like_checkArguments hns
            (fun _ _ _ _ hx _ hxx => hf.told (.templateArgument hx) (.atNode hxx))
            (.set (hw _ List.mem_cons_self) .done) 0 rs _
  · exact like_refuse htext hw

variable (t t') in
theorem like_blockReturns (hid : n.id = n'.id) {ids : List NodeId}
    (hr : ∀ id ∈ ids, F.reads (returnsOf id) (returnsOf id)) (hw : F.writes (returnsOf n.id)) :
    (react t n (.blockReturns ids)).Like F (ids.map returnsOf) (ids.map returnsOf)
      (react t' n' (.blockReturns ids)) := by
  rw [react_blockReturns, react_blockReturns, ← hid]
  refine like_readAllFlags (fun a ha => ?_) fun b => .set hw .done
  obtain ⟨id, hid, rfl⟩ := List.mem_map.1 ha
  exact ⟨ha, ha, hr id hid⟩

theorem like_checked {p p' : Node} {cause : Cause} (hp : F.told (.atNode cause p) (.atNode cause p'))
    (b : Bool) {x x' : Reaction} (h : x.Like F inputs inputs' x') :
    (if b then x else .report (.atNode cause p) x).Like F inputs inputs'
      (if b then x' else .report (.atNode cause p') x') := by
  cases b with
  | true => exact h
  | false => exact .report hp h

/-- Goals without nodes of their own react alike. -/
theorem like_plain (h : t.Alike t') (hn : K.place n n') {g : Goal} (hg : g.isPlain = true)
    (hf : g.Framed F K t n) :
    (g.react t n).Like F (g.inputs n) (g.inputs n) (g.react t' n') := by
  have hin : g.inputs n' = g.inputs n := ((Like.plain hg).inputs (K := K) (K.place_id hn)).symm
  have hout : g.outputs n' = g.outputs n := ((Like.plain hg).outputs (K := K) (K.place_id hn)).symm
  cases g with
  | typeName s name =>
    simp only [react, hin, hout]
    exact like_nameType h hn hf
  | containerType =>
    simp only [react, hin, hout]
    exact like_readType (hf.pairs List.mem_cons_self) fun _ _ => .set (hf.writes _ List.mem_cons_self) .done
  | functionType | templateType =>
    simp only [react_functionType, react_templateType]
    exact like_readType (hf.pairs List.mem_cons_self) fun _ _ =>
      like_readTypes (fun a ha => hf.pairs (List.mem_cons_of_mem _ ha)) fun _ =>
        .set (hf.writes _ List.mem_cons_self) .done
  | copy => exact like_copyType (hf.pairs List.mem_cons_self) (hf.writes _ List.mem_cons_self)
  | blockReturns ids =>
    exact like_blockReturns t t' (K.place_id hn) (fun id hid => hf.reads _ (List.mem_map_of_mem hid))
      (hf.writes _ List.mem_cons_self)
  | branchesReturn =>
    simp only [react, hin, hout]
    exact like_readAllFlags (fun a ha => hf.pairs ha) fun b => .set (hf.writes _ List.mem_cons_self) .done
  | bodyReturns =>
    refine like_readFlag (hf.pairs (by simp [Goal.inputs])) fun b =>
      like_readType (hf.pairs (by simp [Goal.inputs])) fun u _ => ?_
    split
    · exact .done
    · exact .report (hf.told .missingReturn (.atNode hn)) .done
  | emptyReturn =>
    refine like_readType (hf.pairs List.mem_cons_self) fun u _ => ?_
    split
    · exact .done
    · exact .report (hf.told .emptyReturn (.atNode hn)) .done
  | condition =>
    simp only [react, hin, hout]
    exact like_readType (hf.pairs List.mem_cons_self) fun _ _ =>
      like_requireBool .done fun _ => hf.told .condition (.atNode hn)
  | lateReference s name =>
    simp only [react, hin, hout]
    exact like_resolveLate h hn hf
  | emptyForVariable =>
    simp only [react, hin, hout]
    exact like_readType (hf.pairs List.mem_cons_self) fun _ _ => like_emptyLiteral
      (hf.writes _ List.mem_cons_self) _ (hf.told .emptyForVariable (.atNode hn)) _
  | emptyForArgument =>
    simp only [react, hin, hout]
    exact like_readType (hf.pairs List.mem_cons_self) fun _ _ =>
      like_attempt_same (fun o ho => ⟨o, ho, rfl⟩) fun o _ => like_emptyLiteral
        (hf.writes _ List.mem_cons_self) _ (hf.told .emptyForArgument (.atNode hn)) o
  | negation =>
    exact like_readType (hf.pairs List.mem_cons_self) fun _ _ =>
      like_requireBool .done fun _ => hf.told .negation (.atNode hn)
  | arithmetic =>
    simp only [react, hin, hout]
    refine like_readType (hf.pairs (by simp [Goal.inputs])) fun l _ =>
      like_readType (hf.pairs (by simp [Goal.inputs])) fun r _ => ?_
    split
    · exact .set (hf.writes _ List.mem_cons_self) .done
    · exact like_withText fun _ => like_withText fun _ =>
        like_refuse (hf.told .arithmetic (.atNode hn)) hf.writes
  | equality =>
    refine like_readType (hf.pairs (by simp [Goal.inputs])) fun _ _ =>
      like_readType (hf.pairs (by simp [Goal.inputs])) fun _ _ => ?_
    split
    · exact .done
    · exact like_reportTypes .done fun _ _ => hf.told .equality (.atNode hn)
  | member =>
    simp only [react, hin, hout]
    exact like_readType (hf.pairs List.mem_cons_self) fun _ _ => like_accessMember h hn hf _
  | construct =>
    simp only [react, hin, hout]
    exact like_readDecl (hf.pairs List.mem_cons_self) fun _ => like_constructorType h hn hf _
  | _ => cases hg

theorem Like.react (h : t.Alike t') {g g' : Goal} (hg : g.Like K g') (hn : K.place n n')
    (hf : g.Framed F K t n) : (g.react t n).Like F (g.inputs n) (g.inputs n) (g'.react t' n') := by
  have hin := (hg.inputs (K.place_id hn)).symm
  have hout := (hg.outputs (K.place_id hn)).symm
  cases hg with
  | plain hg => exact like_plain h hn hg hf
  | initializer hv =>
    simp only [Goal.react, hin, hout]
    refine like_readType (hf.pairs (by simp [Goal.inputs])) fun _ _ =>
      like_readType (hf.pairs (by simp [Goal.inputs])) fun _ _ => ?_
    split
    · exact .done
    · exact like_reportTypes .done fun _ _ => hf.told .initializer (.atNode hv)
  | valueReturn hv =>
    simp only [Goal.react, hin, hout]
    refine like_readType (hf.pairs (by simp [Goal.inputs])) fun _ _ =>
      like_readType (hf.pairs (by simp [Goal.inputs])) fun _ _ => ?_
    split
    · exact .report (hf.told .voidReturn (.atNode hn)) .done
    · split
      · exact .done
      · exact like_reportTypes .done fun _ _ => hf.told .valueReturn (.atNode hv)
  | literal hns =>
    rw [react_literal, react_literal, ← K.typesOf hns, ← K.place_id hn]
    exact like_readTypes (fun a ha => hf.pairs ha) fun ts => like_literalType
      (hf.writes _ List.mem_cons_self) _ (hf.told .noCommonSupertype (.atNode hn)) hns
      (fun _ hx _ hxx => hf.told (.voidElement hx) (.atNode hxx)) ts none
  | logic hl hr =>
    simp only [Goal.react, hin, hout]
    exact like_readType (hf.pairs (by simp [Goal.inputs])) fun _ _ =>
      like_readType (hf.pairs (by simp [Goal.inputs])) fun _ _ =>
        like_requireBool (like_requireBool .done fun _ => hf.told (.logic (.inr rfl)) (.atNode hr))
          fun _ => hf.told (.logic (.inl rfl)) (.atNode hl)
  | comparison hl hr =>
    simp only [Goal.react, hin, hout]
    exact like_readType (hf.pairs (by simp [Goal.inputs])) fun _ _ =>
      like_readType (hf.pairs (by simp [Goal.inputs])) fun _ _ =>
        like_requireNumber (like_requireNumber .done fun _ => hf.told (.comparison (.inr rfl)) (.atNode hr))
          fun _ => hf.told (.comparison (.inl rfl)) (.atNode hl)
  | @assignment _ _ b _ ht =>
    simp only [Goal.react, hin, hout]
    refine like_readType (hf.pairs (by simp [Goal.inputs])) fun _ _ =>
      like_readType (hf.pairs (by simp [Goal.inputs])) fun _ _ =>
        .set (hf.writes _ List.mem_cons_self) ?_
    cases b with
    | false => exact .report (hf.told .nonAssignable (.atNode ht)) .done
    | true => exact like_checked (hf.told .incompatibleTarget (.atNode hn)) _ .done
  | index hp =>
    simp only [Goal.react, hin, hout]
    refine like_readType (hf.pairs (by simp [Goal.inputs])) fun b _ =>
      like_readType (hf.pairs (by simp [Goal.inputs])) fun i _ =>
        like_checked (hf.told .nonIntegerIndex (.atNode hp)) _ ?_
    split
    · exact .set (hf.writes _ List.mem_cons_self) .done
    · exact .set (hf.writes _ List.mem_cons_self) .done
    · exact like_withText fun _ => like_refuse (hf.told .nonArrayIndexed (.atNode hn)) hf.writes
  | call _ hns =>
    refine like_call hn hns hf.told hf.decls (hf.writes _ (List.mem_cons_of_mem _ List.mem_cons_self)) h
      rfl rfl (hf.told .notCallable (.atNode hn)) (hf.pairs (by simp [Goal.inputs]))
      (fun a ha => hf.pairs ?_) (fun site hs => hf.pairs ?_) fun ss _ => ?_
    · simp_all [Goal.inputs]
    · rw [Option.mem_def] at hs
      simp [Goal.inputs, hs]
    · split
      · exact hf.writes _ List.mem_cons_self
      · exact hf.passes rfl
  | templateCall hns => exact like_templateCall t' hn hns hf (hf.told .notATemplate (.atNode hn))

end Goal

inductive Obligation.Like (K : Placing) : Obligation → Obligation → Prop
  | place {n n' g g'} (hn : K.place n n') (hg : g.Like K g') : Like K ⟨n, g⟩ ⟨n', g'⟩
  | block {n n' ids} (hn : K.opener n n') : Like K ⟨n, .blockReturns ids⟩ ⟨n', .blockReturns ids⟩

/-- Obligations that are alike lead to rules that are alike. -/
theorem Obligation.Like.rule {t t' : Tables} (h : t.Alike t') {o o' : Obligation} (ho : o.Like K o') :
    (o.rule t).Like (.relaid K.place) (o'.rule t') := by
  have hinputs : ∀ {as bs : List Attribute}, as = bs → List.Forall₂ (Frame.relaid K.place).reads as bs :=
    fun hab => hab ▸ List.forall₂_same.2 fun _ _ => rfl
  cases ho with
  | @place n n' g g' hn hg =>
    have hin : g.inputs n = g'.inputs n' := hg.inputs (K.place_id hn)
    have hbody := hg.react h hn (F := .relaid K.place)
      ⟨fun _ hx => hx, fun _ _ => rfl, fun _ _ => rfl, fun _ _ => trivial, fun _ => rfl⟩
    refine ⟨hinputs hin, hg.outputs (K.place_id hn), fun _ _ => trivial, ?_⟩
    show Reaction.Like _ (g.inputs n) (g'.inputs n') _ _
    rw [← hin]
    exact hbody
  | @block n n' ids hn =>
    have hg : (Goal.blockReturns ids).Like K (.blockReturns ids) := .plain rfl
    exact ⟨hinputs rfl, hg.outputs (K.opener_id hn), fun _ _ => trivial,
      Goal.like_blockReturns t t' (K.opener_id hn) (fun _ _ => rfl) trivial⟩

end ScriptAnalysis
