import ScriptAnalysis.Proofs.Typing.Walk.Cursor
import ScriptAnalysis.Proofs.Typing.Walk.Homing

/-!
The scope table as a picture of the syntax tree. The scopes of a program are those of its openers, in the
order of the text; names and written types are looked up from the scope of the nearest opener around them,
and a return is checked against the nearest function or template, unless a class comes before it. The walk
comes back to the scope that it was in after every statement and expression (`Program.scopes_mirror_tree`).
-/
namespace ScriptAnalysis

open Site (Distinct)

def Goal.scope? : Goal → Option ScopeId
  | .typeName scope _ | .lateReference scope _ => some scope
  | _ => none

theorem DeclarationKind.mem_mentions {kind : DeclarationKind} {fs : List DeclId} {f : DeclId}
    (h : kind.fields? = some fs) (hf : f ∈ fs) : f ∈ kind.mentions := by
  cases kind <;> cases h
  exact hf

namespace Program

variable {p : Program} {d : Draft}

/-- The walk over a program opens the scopes of its openers, after that of the program itself, and binds
names where their declarations live. -/
theorem homes_of_walk (hp : p.Numbered) (h : p.walk Walk.reference {} = .ok () d) :
    ({} : Draft).Unfolds p.node.id d p.openings ∧ d.Homed p.sites := by
  obtain ⟨first, hfirst, hopened, _⟩ := Walk.exists_opened
  set start := first.put (.scopeOf p.node.id) (.scope ScopeTable.root) with hstart
  have hwalk : Walk.stmts Walk.reference ScopeTable.root p.body start = .ok () d :=
    (Walk.bind_of_ok hfirst).symm.trans h
  have hbuiltin : ∀ i : DeclId, i.index < first.size → i.index < Builtin.all.length := fun i hi =>
    hopened.size ▸ hi
  have hnone : ∀ n : NodeId, first.attributes.slot? (.scopeOf n) = none := fun n =>
    congrFun (congrArg Entry.slots (hopened.fresh n)) .scope
  have hhomed : first.Homed p.sites :=
    ⟨fun i s hs b hb => .inl (hbuiltin _ (hopened.sound.bound i s hs b hb)),
      fun s i hi => .inl (hbuiltin _ (hopened.sound.signatures s i hi)), fun i x fs hx hfs f hf =>
      ⟨ScopeTable.root, .inl (hbuiltin ⟨i⟩ (Declarations.lt_size_of_getElem? hx)),
        .inl (hbuiltin f (hopened.sound.mentions i x hx f (DeclarationKind.mem_mentions hfs hf)))⟩⟩
  have hroot : start.Opens p.node.id ScopeTable.root :=
    Draft.opens_put (hnone _) hopened.sound.rooted.1
  have hfresh : start.Fresh p.sites := by
    intro s hs
    rw [hstart, Draft.put, Attributes.slot?_set, if_neg, hnone]
    intro he
    exact hp.id_ne hs (by simpa using he.symm)
  obtain ⟨hi, ha⟩ := hp.2
  obtain ⟨hunfolds, hhomes, _⟩ := Walk.homes_stmts p.body [] p.setting rfl hroot
    ⟨List.Subset.refl _, Site.distinct_of_ascending ha, hfresh⟩ () d hwalk
  have hflat : ({} : Draft).Unfolds p.node.id first [] :=
    (Walk.does_declareAll Change.plain_le_flat).unfolds hfirst
  exact ⟨(hflat.rest (.put _ _)).flat hunfolds, hhomes (hhomed.put _ _)⟩

/-- A function or template introduces one declaration, with its written result type. -/
theorem exists_declaration (hd : p.Drafted d) {around : List Opener} {o : Opener}
    (h : (around, o) ∈ p.openings) (hkind : o.kind = .function ∨ o.kind = .template) :
    ∃ id x r, d.tables.declarations.idsAt o.node = [id] ∧
      d.tables.declarations.items[id.index]? = some x ∧ x.kind.result? = some r ∧
      o.result.map TypeExpr.id = some r := by
  obtain ⟨n, hn, hopening⟩ := List.mem_filterMap.1 h
  obtain ⟨o', ho, he⟩ := Option.map_eq_some_iff.1 hopening
  cases he
  have hl := hd.leaves _ (site_nested hn)
  obtain ⟨around, x⟩ := n
  cases x with
  | function node head inner body =>
    cases ho
    generalize he : d.entry _ = e at hl
    have hids := congrArg Entry.declared he
    cases hl with
    | stmt hl =>
      cases hl with
      | @function _ _ _ _ id _ hl =>
        obtain ⟨x, hx, _, _, hblank⟩ := hl.item
        refine ⟨id, x, head.result.id, hids, hx, ?_, rfl⟩
        rw [← DeclarationKind.result?_blank, hblank]
        rfl
  | template node head inner body =>
    cases ho
    generalize he : d.entry _ = e at hl
    have hids := congrArg Entry.declared he
    cases hl with
    | stmt hl =>
      cases hl with
      | @template _ _ _ _ id _ _ hl =>
        obtain ⟨x, hx, _, _, hblank⟩ := hl.item
        refine ⟨id, x, head.result.id, hids, hx, ?_, rfl⟩
        rw [← DeclarationKind.result?_blank, hblank]
        rfl
  | block node body =>
    cases ho
    rcases hkind with hkind | hkind <;> cases hkind
  | cls node head inner body =>
    cases ho
    rcases hkind with hkind | hkind <;> cases hkind
  | _ => cases ho

end Program

def Draft.functionAround (d : Draft) (around : List Opener) : Option DeclId :=
  (Opener.function? around).bind fun o => d.tables.declarations.forNode? o.node

namespace Program

variable {p : Program} {d : Draft}

/-- From a scope outwards, the function that it belongs to is that of the openers. -/
theorem finds_functionAround (hd : p.Drafted d) (h : ({} : Draft).Unfolds p.node.id d p.openings) :
    ∀ (around : List Opener), Opener.Chained p.openings around → ∀ scope,
      d.Opens (Opener.home p.node.id around) scope →
      ∃ r, d.tables.scopes.Finds ScopeTable.owner scope r ∧ r.join = d.functionAround around
  | [], _, scope, hscope => by
    have hroot : d.attributes.slot? (.scopeOf p.node.id) = some (.set (.scope ScopeTable.root)) :=
      congrFun (congrArg Entry.slots hd.own) .scope
    obtain rfl : scope = ScopeTable.root := by
      have hsame := hscope.1.symm.trans hroot
      simpa using hsame
    obtain ⟨s, hs, _, hkind, _⟩ := h.scopes.scope 0 _ rfl
    refine ⟨some none, .here hs ?_, rfl⟩
    rw [ScopeTable.owner, hkind]
    rfl
  | o :: around, hchained, scope, hscope => by
    obtain ⟨hmem, hrest⟩ := hchained
    obtain ⟨i, hi⟩ := List.mem_iff_getElem?.1 hmem
    have hlays := h.lays i _ hi
    obtain rfl : scope = ⟨ScopeTable.initial.size + i⟩ := by
      have hsame := hscope.1.symm.trans hlays.node.1
      simpa using hsame
    obtain ⟨s, parent, hs, hparent, hhome, howns⟩ := hlays.scope
    have hone := exists_declaration hd hmem
    unfold Opener.Owns at howns
    unfold Draft.functionAround Opener.function?
    cases hkind : o.kind with
    | block =>
      simp only [hkind] at howns
      obtain ⟨r, hfinds, hr⟩ := finds_functionAround hd h around hrest parent hhome
      exact ⟨r, .up hs (by rw [ScopeTable.owner, howns]; rfl) hparent hfinds, hr⟩
    | function | template =>
      simp only [hkind] at howns
      obtain ⟨id, hid, howner⟩ := howns
      obtain ⟨id', _, _, hids, _⟩ := hone (by simp [hkind])
      rw [hids, List.mem_singleton] at hid
      subst hid
      refine ⟨some (some id), .here hs (by rw [ScopeTable.owner, howner]; rfl), ?_⟩
      simp [Declarations.forNode?_eq, hids]
    | cls =>
      simp only [hkind] at howns
      obtain ⟨id, _, howner⟩ := howns
      exact ⟨some none, .here hs (by rw [ScopeTable.owner, howner]; rfl), rfl⟩

/-- The result type of the function or template around a statement is that of its declaration. -/
theorem exists_result_around (hd : p.Drafted d) {around : List Opener}
    (h : Opener.Chained p.openings around) {o : Opener} (ho : Opener.function? around = some o) :
    ∃ id x r, d.functionAround around = some id ∧ d.tables.declarations.items[id.index]? = some x ∧
      x.kind.result? = some r ∧ o.result.map TypeExpr.id = some r := by
  induction around with
  | nil => cases ho
  | cons o' around ih =>
    have hone := exists_declaration hd h.1
    unfold Draft.functionAround
    rw [ho]
    unfold Opener.function? at ho
    cases hkind : o'.kind with
    | block =>
      simp only [hkind] at ho
      have hrest := ih h.2 ho
      unfold Draft.functionAround at hrest
      rwa [ho] at hrest
    | function | template =>
      simp only [hkind, Option.some.injEq] at ho
      subst ho
      obtain ⟨id, x, r, hids, hx, hr, hresult⟩ := hone (by simp [hkind])
      exact ⟨id, x, r, by simp [Declarations.forNode?_eq, hids], hx, hr, hresult⟩
    | cls =>
      simp only [hkind] at ho
      cases ho

end Program

def Goal.ofReturn (result : NodeId) : Option Expr → Goal
  | some e => .valueReturn result e.node
  | none => .emptyReturn result

/-- A return is checked against a function, if there is one: this is all that is owed at its node. -/
def Draft.ChecksReturn (d : Draft) (node : Node) (value : Option Expr) (function : Option DeclId) : Prop :=
  match function with
  | none => (d.entry node.id).obligations = []
  | some id => ∃ x result, d.tables.declarations.get id = .ok x ∧ x.kind.result? = some result ∧
      (d.entry node.id).obligations = [⟨node, .ofReturn result value⟩]

/-- The scopes of a draft are those of the openers of a program. -/
structure Program.MirroredBy (p : Program) (d : Draft) : Prop where
  root : d.Opens p.node.id ScopeTable.root ∧
    ∃ s, d.tables.scopes.get ScopeTable.root = .ok s ∧ s.parent = none
  parents : ∀ i s, 0 < i → d.tables.scopes.get ⟨i⟩ = .ok s →
    ∃ parent, s.parent = some parent ∧ parent.index < i
  size : d.tables.scopes.size = p.openings.length + 1
  /-- Each opener has a scope of its own, which its body shares. -/
  opened : ∀ i x, p.openings[i]? = some x → d.Lays p.node.id (i + 1) x
  /-- Whatever is looked up later is looked up from the scope of the nearest opener. -/
  looked : ∀ s ∈ p.sites, ∀ o ∈ (d.entry s.id).obligations, ∀ scope, o.goal.scope? = some scope →
    d.Opens s.setting.home scope
  returns : ∀ n ∈ p.nested, ∀ node value, n.stmt = .ret node value →
    ∃ scope, d.Opens (Opener.home p.node.id n.around) scope ∧
      d.tables.scopes.enclosingFunction scope = .ok (d.functionAround n.around) ∧
      ((Opener.function? n.around).isSome = (d.functionAround n.around).isSome) ∧
      d.ChecksReturn node value (d.functionAround n.around)

namespace Program

variable {p : Program} {d : Draft}

theorem opens_of_reference {st : Setting} {ref : Reference} {e : Entry} (h : ref.Leaves d st e)
    {o : Obligation} (ho : o ∈ e.obligations) {scope : ScopeId} (hscope : o.goal.scope? = some scope) :
    d.Opens st.home scope := by
  cases h with
  | early _ _ _ =>
    cases List.mem_singleton.1 ho
    cases hscope
  | late hopens _ =>
    cases List.mem_singleton.1 ho
    cases hscope
    exact hopens

theorem opens_of_expr {st : Setting} {role : Role} {x : Expr} {e : Entry} (h : x.Leaves d st role e)
    {o : Obligation} (ho : o ∈ e.obligations) {scope : ScopeId} (hscope : o.goal.scope? = some scope) :
    d.Opens st.home scope := by
  cases h with
  | symbol h => exact opens_of_reference h ho hscope
  | int | float | string | emptyFree => cases ho
  | _ =>
    cases List.mem_singleton.1 ho
    cases hscope

theorem scope?_ofBlock {inner : ScopeId} {node : Node} {body : List Stmt} {o : Obligation}
    (ho : o ∈ (Entry.ofBlock inner node body).obligations) : o.goal.scope? = none := by
  unfold Entry.ofBlock at ho
  split at ho
  · cases ho
  · cases List.mem_singleton.1 ho
    rfl

/-- Statements look nothing up at their own nodes. -/
theorem scope?_of_stmt {st : Setting} {x : Stmt} {e : Entry} (h : x.Leaves d st e) {o : Obligation}
    (ho : o ∈ e.obligations) : o.goal.scope? = none := by
  cases h with
  | block => exact scope?_ofBlock ho
  | ifElse =>
    unfold Entry.ofBranches at ho
    split at ho
    · cases List.mem_singleton.1 ho
      rfl
    · cases ho
  | ret =>
    unfold Entry.ofReturn at ho
    split at ho
    · cases List.mem_singleton.1 ho
      rfl
    · cases List.mem_singleton.1 ho
      rfl
    · cases ho
  | field =>
    cases List.mem_singleton.1 ho
    rfl
  | «variable» | function | template =>
    simp only [Entry.obligations_owing, Entry.obligations_put, Entry.obligations_declaring,
      List.nil_append, List.cons_append, List.mem_cons, List.not_mem_nil, or_false] at ho
    rcases ho with rfl | rfl <;> rfl
  | struct | cls | subclass | ifThen | loop | action => cases ho

/-- What is looked up later is looked up from the scope of its surroundings. -/
theorem opens_of_owed {s : Site} {e : Entry} (h : s.Leaves d e) {o : Obligation} (ho : o ∈ e.obligations)
    {scope : ScopeId} (hscope : o.goal.scope? = some scope) : d.Opens s.setting.home scope := by
  cases h with
  | typeName hopens =>
    cases List.mem_singleton.1 ho
    cases hscope
    exact hopens
  | reference h => exact opens_of_reference h ho hscope
  | expr _ h => exact opens_of_expr h ho hscope
  | condition h =>
    rcases List.mem_append.1 ho with ho | ho
    · exact opens_of_expr h ho hscope
    · cases List.mem_singleton.1 ho
      cases hscope
  | body =>
    rw [scope?_ofBlock ho] at hscope
    cases hscope
  | stmt h =>
    rw [scope?_of_stmt h ho] at hscope
    cases hscope
  | typeParameter => cases ho
  | containerType | field | parameter =>
    cases List.mem_singleton.1 ho
    cases hscope

theorem checksReturn_around (hd : p.Drafted d) {around : List Opener} {node : Node} {value : Option Expr}
    (hn : ⟨around, .ret node value⟩ ∈ p.nested) : d.ChecksReturn node value (d.functionAround around) := by
  have hentry : d.entry node.id = .ofReturn (Opener.setting p.node.id around) node value := by
    have hl := hd.leaves _ (site_nested hn)
    generalize he : d.entry _ = e at hl
    cases hl with
    | stmt hl =>
      cases hl with
      | ret => exact he
  cases ho : Opener.function? around with
  | none =>
    have hnone : (Opener.setting p.node.id around).result = none := by simp [Opener.setting, ho]
    have hfunction : d.functionAround around = none := by simp [Draft.functionAround, ho]
    rw [hfunction]
    show (d.entry node.id).obligations = []
    rw [hentry]
    cases value <;> simp [Entry.ofReturn, hnone]
  | some o =>
    obtain ⟨id, x, r, hid, hx, hr, hresult⟩ := exists_result_around hd (chained_nested hn) ho
    obtain ⟨t, ht, rfl⟩ := Option.map_eq_some_iff.1 hresult
    have hsome : (Opener.setting p.node.id around).result = some t := by simp [Opener.setting, ho, ht]
    rw [hid]
    refine ⟨x, t.id, Declarations.get_eq_ok.2 hx, hr, ?_⟩
    rw [hentry]
    cases value <;> simp [Entry.ofReturn, hsome, Goal.ofReturn]

theorem mirroredBy_of_walk (hp : p.Numbered) (hd : p.Drafted d) (h : p.walk Walk.reference {} = .ok () d) :
    p.MirroredBy d := by
  have hunfolds := (homes_of_walk hp h).1
  have hsize : d.tables.scopes.size = p.openings.length + 1 := by
    rw [hunfolds.size]
    exact Nat.add_comm _ _
  have hroot : d.Opens p.node.id ScopeTable.root := by
    refine ⟨congrFun (congrArg Entry.slots hd.own) .scope, ?_⟩
    rw [hsize]
    exact Nat.succ_pos _
  have hopened : ∀ i x, p.openings[i]? = some x → d.Lays p.node.id (i + 1) x := by
    intro i x hx
    have hlays := hunfolds.lays i x hx
    rwa [Nat.add_comm] at hlays
  refine ⟨⟨hroot, ?_⟩, ?_, hsize, hopened, ?_, ?_⟩
  · obtain ⟨s, hs, hparent, _⟩ := hunfolds.scopes.scope 0 _ rfl
    exact ⟨s, ScopeTable.get_eq_ok.2 hs, hparent⟩
  · intro i s hi hs
    have hs := ScopeTable.get_eq_ok.1 hs
    obtain ⟨j, rfl⟩ := Nat.exists_eq_succ_of_ne_zero (Nat.ne_of_gt hi)
    have hlt : j < p.openings.length := by
      have := ScopeTable.lt_size_of_getElem? hs
      simp only at this
      omega
    obtain ⟨s', parent, hs', hparent, _⟩ := (hopened j _ (List.getElem?_eq_getElem hlt)).scope
    obtain rfl : s = s' := Option.some.inj (hs.symm.trans hs')
    exact ⟨parent, hparent, hd.sound.rooted.2 _ _ hs _ hparent⟩
  · intro s hs o ho scope hscope
    exact opens_of_owed (hd.leaves s hs) ho hscope
  · rintro ⟨around, x⟩ hn node value rfl
    have hchained := chained_nested hn
    obtain ⟨scope, hscope⟩ : ∃ scope, d.Opens (Opener.home p.node.id around) scope := by
      cases around with
      | nil => exact ⟨_, hroot⟩
      | cons o around =>
        obtain ⟨i, hi⟩ := List.mem_iff_getElem?.1 hchained.1
        exact ⟨_, (hopened i _ hi).node⟩
    obtain ⟨r, hfinds, hr⟩ := finds_functionAround hd hunfolds around hchained scope hscope
    refine ⟨scope, hscope, ?_, ?_, checksReturn_around hd hn⟩
    · rw [← hr]
      exact ScopeTable.enclosingFunction_eq hd.sound.rooted hscope.2 hfinds
    · cases ho : Opener.function? around with
      | none => simp [Draft.functionAround, ho]
      | some o =>
        obtain ⟨id, _, _, hid, _⟩ := exists_result_around hd hchained ho
        simp [hid]

/-- The scopes after the walk over a program that parses mirror its tree. The cursor is in the root scope
again at the end of the program, and in the scope that it was in before after each statement and each
expression. -/
theorem scopes_mirror_tree {tokens : List Token} {file : String} {p : Program} {c : Cursor}
    (h : Program.parse tokens file = .ok p c) :
    (∃ d, Draft.after (p.walk Walk.reference) = .ok d ∧ p.MirroredBy d ∧
      (Cursored.program p).run .initial {} = .ok ((), .initial) d) ∧
    (∀ scope s, (Cursored.stmt s).run ⟨scope, .free⟩ =
      (·, ⟨scope, .free⟩) <$> Walk.stmt Walk.reference scope s) ∧
    ∀ scope x e, (Cursored.expr e).run ⟨scope, x⟩ =
      (·, ⟨scope, x⟩) <$> Walk.expr Walk.reference scope x e := by
  have hp := numbered_of_parse h
  obtain ⟨d, hwalk, hd⟩ := Program.drafted hp
  have hplain := walk_of_after hwalk
  refine ⟨⟨d, hwalk, mirroredBy_of_walk hp hd hplain, ?_⟩, Cursored.keeps_stmt, Cursored.keeps_expr⟩
  rw [Cursored.keeps_program p, map_eq_pure_bind]
  exact Walk.bind_of_ok hplain

/-- A function with a block and a class in it, the class with a function of its own and a return beside
it, and a return outside. -/
def nestedText : String :=
  "fun f(): Int \x7b \x7b return 1 \x7d
    class C \x7b \x7b fun g() \x7b return \x7d \x7d return \x7d \x7d
  return"

theorem scopes_mirror_tree_nested :
    ∃ tokens p c, Token.tokenize nestedText "main" = .ok tokens ∧
      Program.parse tokens "main" = .ok p c ∧
      p.openings.map (fun x => (x.1.map Opener.kind, x.2.kind)) =
        [([], .function), ([.function], .block), ([.function], .cls), ([.cls, .function], .block),
          ([.block, .cls, .function], .function)] ∧
      ∃ d, Draft.after (p.walk Walk.reference) = .ok d ∧ p.MirroredBy d ∧
        (Cursored.program p).run .initial {} = .ok ((), .initial) d := by
  obtain ⟨tokens, p, c, htokens, hparse, hopenings⟩ := Program.exists_of_reads "main" nestedText
    (fun p => p.openings.map (fun x => (x.1.map Opener.kind, x.2.kind)) =
      [([], .function), ([.function], .block), ([.function], .cls), ([.cls, .function], .block),
        ([.block, .cls, .function], .function)]) (by decide +kernel)
  exact ⟨tokens, p, c, htokens, hparse, of_decide_eq_true hopenings, (scopes_mirror_tree hparse).1⟩

end Program

end ScriptAnalysis
