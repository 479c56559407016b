import ScriptAnalysis.Proofs.Typing.Completeness
import ScriptAnalysis.Proofs.Typing.ScopeTree
import ScriptAnalysis.Proofs.Typing.Walk.Flattening

/-!
What classes inherit. The members of a class are those that its body declares, in the order of the text,
followed for each class behind `from` by the members that the body of that class declares
(`Program.classes_flatten`). Only a class around the class, or the class itself, hands nothing down.
-/
namespace ScriptAnalysis

def Declarations.classAt? (t : Declarations) (n : NodeId) : Option ClassInfo := do
  let id ← t.forNode? n
  let x ← t.items[id.index]?
  x.kind.class?

theorem forall₂_filterMap {α β : Type} {f : α → Option β} {l : List α}
    (h : ∀ x ∈ l, ∃ y, f x = some y) : List.Forall₂ (fun x y => f x = some y) l (l.filterMap f) := by
  induction l with
  | nil => exact .nil
  | cons x l ih =>
    obtain ⟨y, hy⟩ := h x List.mem_cons_self
    rw [List.filterMap_cons_some hy]
    exact .cons hy (ih fun z hz => h z (List.mem_cons_of_mem _ hz))

namespace Program

variable {p : Program} {d : Draft}

/-- The walk over the statements of a program begins with nothing declared at their nodes. -/
theorem exists_before (hp : p.Numbered) (h : p.walk Walk.reference {} = .ok () d) :
    ∃ start, Walk.stmts Walk.reference ScopeTable.root p.body start = .ok () d ∧
      start.Before [] p.sites := by
  obtain ⟨first, hfirst, hopened, _⟩ := Walk.exists_opened
  have hwalk := (Walk.bind_of_ok hfirst).symm.trans h
  obtain ⟨_, hi, ha⟩ := hp
  refine ⟨first.put (.scopeOf p.node.id) (.scope ScopeTable.root), hwalk, ?_⟩
  have hbegin : first.Before [] p.sites := {
    named := Walk.named_declareAll hfirst
    vacant := fun s _ i ⟨x, hx, hnode⟩ => by
      have hnone : first.tables.declarations.idsAt s.id = [] := congrArg Entry.declared (hopened.fresh s.id)
      have hmem := Declarations.mem_idsAt.2 ⟨x, hx, hnode⟩
      rw [hnone] at hmem
      cases hmem
    pending := fun _ _ _ _ _ _ hin => by cases hin
    distinct := Site.distinct_of_ascending ha
    apart := fun _ _ => List.not_mem_nil }
  exact hbegin.quiet rfl

/-- The walk over a program gives each class its members. -/
theorem flattensAll_nested (hp : p.Numbered) (h : p.walk Walk.reference {} = .ok () d) :
    d.FlattensAll p.sites p.nested := by
  obtain ⟨start, hwalk, hbefore⟩ := exists_before hp h
  exact Walk.flattens_stmts p.body [] hwalk hbefore

/-- Each member that the body of a class declares has a declaration. -/
theorem exists_declaration_member {a : Analysis} (hp : p.Numbered) (h : p.Analysed d a) {st : Setting}
    {node inner : Node} {head : ClassHead} {body : List Stmt} {s : Stmt}
    (hsite : ⟨st, .stmt (.cls node head inner body)⟩ ∈ p.sites) (hs : s ∈ body)
    (hmember : s.isMember = true) : ∃ id, d.tables.declarations.forNode? s.id = some id := by
  have hbody : ⟨⟨node.id, none⟩, .body inner body⟩ ∈ p.sites :=
    (hp.premise hsite (List.mem_singleton_self _)).1
  have hstmt : ⟨⟨node.id, none⟩, .stmt s⟩ ∈ p.sites := (hp.premise hbody (List.mem_map_of_mem hs)).1
  have hdeclares : s.declares = true := by cases s <;> first | rfl | cases hmember
  obtain ⟨id, hid, _⟩ := h.exists_declaration hstmt hdeclares
  rw [Analysis.declaredBy?, h.tables] at hid
  exact ⟨id, hid⟩

end Program

theorem Draft.diagnostics_subset {d : Draft} {a : Analysis} (h : d.resolve = .ok a) :
    d.diagnostics ⊆ a.diagnostics := by
  obtain ⟨res, _, ha⟩ := exists_of_do h
  cases ha
  exact fun x hx => List.mem_mergeSort.2 (List.mem_append_left _ hx)

/-- Each class has the members of its body, in their order, and then those that the classes behind `from`
hand down, in their order. What stands behind `from` is a class of that name, or it is reported. -/
def Analysis.FlattensClasses (a : Analysis) (p : Program) : Prop :=
  ∀ n ∈ p.nested, ∀ node head inner body, n.stmt = .cls node head inner body →
    ∃ info, a.tables.declarations.classAt? node.id = some info ∧
      List.Forall₂ (fun s id => a.tables.declarations.forNode? s.id = some id)
        (body.filter Stmt.isMember) info.ownMembers ∧
      (∃ found, List.Forall₂ (Superclass.Resolved a.tables.declarations a.diagnostics node)
        head.superclasses found ∧ info.superclasses = found.filterMap id) ∧
      info.members = info.ownMembers ++ info.superclasses.flatMap
        (a.tables.declarations.handedDown (node.id :: Opener.classes n.around))

namespace Program

/-- The analysis of a program that parses flattens its classes. -/
theorem classes_flatten {tokens : List Token} {file : String} {p : Program} {c : Cursor}
    (h : parse tokens file = .ok p c) : ∃ a, p.analyse = .ok a ∧ a.FlattensClasses p := by
  have hp := numbered_of_parse h
  obtain ⟨d, a, ha, hanalysed⟩ := Program.analysed hp
  refine ⟨a, ha, fun n hn node head inner body hcls => ?_⟩
  obtain ⟨_, _, _, id, x, info, hid, hx, _, hkind, hflat⟩ :=
    flattensAll_nested hp (walk_of_after hanalysed.walked) n hn node head inner body hcls
  obtain ⟨found, hfound, hsuper⟩ := hflat.superclasses
  have htold := Draft.diagnostics_subset hanalysed.resolved
  have hspares : d.Spares [] (fun _ => False) { d with diagnostics := a.diagnostics } := by
    refine .of_subset ?_ htold []
    rfl
  rw [hanalysed.tables]
  refine ⟨info, ?_, ?_, ⟨found, hfound.imp fun _ _ => hspares.resolved, hsuper⟩, hflat.members⟩
  · simp [Declarations.classAt?, hid, hx, hkind, DeclarationKind.class?]
  · rw [hflat.own]
    refine forall₂_filterMap fun s hs => ?_
    obtain ⟨hs, hmember⟩ := List.mem_filter.1 hs
    have hsite := site_nested hn
    rw [hcls] at hsite
    exact exists_declaration_member hp hanalysed hsite hs hmember

/-- A class with a class inside it that extends it, and a class that extends both it and what is missing. -/
def inheritanceText : String :=
  "class A \x7b var x: Int = 1 class B from A \x7b fun y() \x7b return \x7d \x7d \x7d
  class C from A, D \x7b var z: Int = 2 \x7d"

theorem classes_flatten_inheritance :
    ∃ tokens p c, Token.tokenize inheritanceText "main" = .ok tokens ∧ parse tokens "main" = .ok p c ∧
      (p.nested.map fun n => (Opener.classes n.around).length) = [0, 1, 1, 2, 2, 0, 1] ∧
      ∃ a, p.analyse = .ok a ∧ a.FlattensClasses p := by
  obtain ⟨tokens, p, c, htokens, hparse, htest⟩ := exists_of_reads "main" inheritanceText
    (fun p => (p.nested.map fun n => (Opener.classes n.around).length) = [0, 1, 1, 2, 2, 0, 1])
    (by decide +kernel)
  exact ⟨tokens, p, c, htokens, hparse, of_decide_eq_true htest, classes_flatten hparse⟩

def enclosedText : String := "class A \x7b var x: Int = 1 class B from A \x7b \x7d \x7d"

/-- A class inside of its superclass does not get the members that the superclass has in the end. -/
theorem enclosing_class_hands_nothing_down :
    ∃ tokens p c a, Token.tokenize enclosedText "main" = .ok tokens ∧ parse tokens "main" = .ok p c ∧
      p.analyse = .ok a ∧ a.diagnostics = [] ∧
      ∃ n ∈ p.nested, ∃ info, a.tables.declarations.classAt? n.stmt.id = some info ∧
        info.members ≠
          info.ownMembers ++ info.superclasses.flatMap (a.tables.declarations.handedDown []) := by
  obtain ⟨tokens, p, c, a, htokens, hparse, ha, hnil, htest⟩ := exists_of_accepts 4 "main" enclosedText
    (fun p a => p.nested.any fun n => (a.tables.declarations.classAt? n.stmt.id).any fun info =>
      info.members ≠ info.ownMembers ++ info.superclasses.flatMap (a.tables.declarations.handedDown []))
    (by decide +kernel)
  obtain ⟨n, hn, hclass⟩ := List.any_eq_true.1 htest
  obtain ⟨info, hinfo, hne⟩ := (Option.any_eq_true ..).1 hclass
  exact ⟨tokens, p, c, a, htokens, hparse, ha, hnil, n, hn, info, hinfo, of_decide_eq_true hne⟩

end Program

end ScriptAnalysis
