import ScriptAnalysis.Proofs.Attribute.Growth
import ScriptAnalysis.Proofs.Table.Growth
import ScriptAnalysis.Typing.Draft

/-!
What a draft says of a node, and how the steps of a walk change it. A step that always succeeds is a
function on drafts; a walk is then described by the drafts it can end in (`Walk.Reaches`).
-/
namespace ScriptAnalysis

def Cause.isGap : Cause → Bool
  | .uninferableLiteral _ => true
  | _ => false

@[ext] structure Entry where
  slots : AttributeKind → Option Slot := fun _ => none
  declared : List DeclId := []
  obligations : List Obligation := []
  gaps : List Diagnostic := []

namespace Entry

def put (e : Entry) (k : AttributeKind) (s : Slot) : Entry :=
  { e with slots := fun k' => if k = k' then some ((e.slots k).getD s) else e.slots k' }

def declaring (e : Entry) (id : DeclId) : Entry := { e with declared := e.declared ++ [id] }

def owing (e : Entry) (o : Obligation) : Entry := { e with obligations := e.obligations ++ [o] }

def lacking (e : Entry) (x : Diagnostic) : Entry := { e with gaps := e.gaps ++ [x] }

@[simp] theorem slots_put (e : Entry) (k k' : AttributeKind) (s : Slot) :
    (e.put k s).slots k' = if k = k' then some ((e.slots k).getD s) else e.slots k' := rfl

@[simp] theorem declared_put (e : Entry) (k : AttributeKind) (s : Slot) :
    (e.put k s).declared = e.declared := rfl

@[simp] theorem obligations_put (e : Entry) (k : AttributeKind) (s : Slot) :
    (e.put k s).obligations = e.obligations := rfl

@[simp] theorem slots_declaring (e : Entry) (id : DeclId) : (e.declaring id).slots = e.slots := rfl

@[simp] theorem declared_declaring (e : Entry) (id : DeclId) :
    (e.declaring id).declared = e.declared ++ [id] := rfl

@[simp] theorem obligations_declaring (e : Entry) (id : DeclId) :
    (e.declaring id).obligations = e.obligations := rfl

@[simp] theorem slots_owing (e : Entry) (o : Obligation) : (e.owing o).slots = e.slots := rfl

@[simp] theorem declared_owing (e : Entry) (o : Obligation) : (e.owing o).declared = e.declared := rfl

@[simp] theorem obligations_owing (e : Entry) (o : Obligation) :
    (e.owing o).obligations = e.obligations ++ [o] := rfl

@[simp] theorem slots_lacking (e : Entry) (x : Diagnostic) : (e.lacking x).slots = e.slots := rfl

@[simp] theorem declared_lacking (e : Entry) (x : Diagnostic) : (e.lacking x).declared = e.declared := rfl

@[simp] theorem obligations_lacking (e : Entry) (x : Diagnostic) :
    (e.lacking x).obligations = e.obligations := rfl

theorem mem_owing (e : Entry) (o : Obligation) : o ∈ (e.owing o).obligations := by simp

end Entry

namespace Draft

def size (d : Draft) : Nat := d.tables.declarations.size

def entry (d : Draft) (n : NodeId) : Entry where
  slots k := d.attributes.slot? ⟨.node n, k⟩
  declared := d.tables.declarations.idsAt n
  obligations := d.obligations.toList.filter (·.node.id = n)
  gaps := d.diagnostics.filter fun x => x.node = some n && x.cause.isGap

def put (d : Draft) (a : Attribute) (v : Value) : Draft :=
  { d with attributes := d.attributes.set a v }

def refuse (d : Draft) (found : Diagnostic) (a : Attribute) : Draft :=
  { d with diagnostics := d.diagnostics ++ [found], attributes := d.attributes.fail a }

def tell (d : Draft) (found : Diagnostic) : Draft :=
  { d with diagnostics := d.diagnostics ++ [found] }

def owe (d : Draft) (node : Node) (goal : Goal) : Draft :=
  { d with obligations := d.obligations.push ⟨node, goal⟩ }

def opening (d : Draft) (parent : ScopeId) (kind : ScopeKind) : Draft :=
  { d with tables := { d.tables with scopes := (d.tables.scopes.push parent kind).1 } }

def declaring (d : Draft) (x : Declaration) : Draft :=
  { d with tables := { d.tables with declarations := (d.tables.declarations.add x).1 } }

def withScopes (d : Draft) (scopes : ScopeTable) : Draft :=
  { d with tables := { d.tables with scopes } }

def withDeclarations (d : Draft) (declarations : Declarations) : Draft :=
  { d with tables := { d.tables with declarations } }

def listing (d : Draft) (s : Signature) (id : DeclId) : Draft :=
  { d with tables := { d.tables with signatures := d.tables.signatures.register s id } }

theorem entry_put (d : Draft) (n : NodeId) (k : AttributeKind) (v : Value) (m : NodeId) :
    (d.put ⟨.node n, k⟩ v).entry m = if n = m then (d.entry m).put k (.set v) else d.entry m := by
  split
  · next h =>
    subst h
    ext1
    · funext k'
      simp [entry, put, Attributes.slot?_set]
    · rfl
    · rfl
    · rfl
  · next h =>
    ext1
    · funext k'
      simp [entry, put, Attributes.slot?_set, h]
    · rfl
    · rfl
    · rfl

theorem entry_put_decl (d : Draft) (id : DeclId) (k : AttributeKind) (v : Value) (m : NodeId) :
    (d.put ⟨.decl id, k⟩ v).entry m = d.entry m := by
  ext1
  · funext k'
    simp [entry, put, Attributes.slot?_set]
  · rfl
  · rfl
  · rfl

theorem entry_refuse (d : Draft) {found : Diagnostic} {n : NodeId} (hn : found.node = some n)
    (hg : found.cause.isGap = true) (k : AttributeKind) (m : NodeId) :
    (d.refuse found ⟨.node n, k⟩).entry m =
      if n = m then ((d.entry m).put k .failed).lacking found else d.entry m := by
  split
  · next h =>
    subst h
    ext1
    · funext k'
      simp [entry, refuse, Attributes.slot?_fail, Entry.lacking]
    · rfl
    · rfl
    · simp [entry, refuse, Entry.lacking, Entry.put, hn, hg]
  · next h =>
    ext1
    · funext k'
      simp [entry, refuse, Attributes.slot?_fail, h]
    · rfl
    · rfl
    · simp [entry, refuse, hn, h]

theorem entry_tell (d : Draft) {found : Diagnostic} (hg : found.cause.isGap = false) (m : NodeId) :
    (d.tell found).entry m = d.entry m := by
  ext1
  · rfl
  · rfl
  · rfl
  · simp [entry, tell, hg]

theorem entry_owe (d : Draft) (node : Node) (goal : Goal) (m : NodeId) :
    (d.owe node goal).entry m =
      if node.id = m then (d.entry m).owing ⟨node, goal⟩ else d.entry m := by
  split
  · next h => ext1 <;> simp [entry, owe, Entry.owing, h]
  · next h => ext1 <;> simp [entry, owe, h]

@[simp] theorem entry_opening (d : Draft) (parent : ScopeId) (kind : ScopeKind) (m : NodeId) :
    (d.opening parent kind).entry m = d.entry m := rfl

@[simp] theorem entry_withScopes (d : Draft) (scopes : ScopeTable) (m : NodeId) :
    (d.withScopes scopes).entry m = d.entry m := rfl

@[simp] theorem entry_listing (d : Draft) (s : Signature) (id : DeclId) (m : NodeId) :
    (d.listing s id).entry m = d.entry m := rfl

theorem entry_declaring (d : Draft) (x : Declaration) (m : NodeId) :
    (d.declaring x).entry m =
      if x.node = some m then (d.entry m).declaring ⟨d.size⟩ else d.entry m := by
  split
  · next h => ext1 <;> simp [entry, declaring, Entry.declaring, Declarations.idsAt_add, h, size]
  · next h => ext1 <;> simp [entry, declaring, Declarations.idsAt_add, h]

end Draft

namespace Walk

/-- A walk succeeds from a draft, with a result and a draft as stated. -/
def Reaches {α : Type} (m : Walk α) (d : Draft) (Q : α → Draft → Prop) : Prop :=
  ∃ a d', m d = .ok a d' ∧ Q a d'

variable {α β : Type} {d : Draft}

theorem Reaches.bind {m : Walk α} {f : α → Walk β} {R : α → Draft → Prop} {Q : β → Draft → Prop}
    (hm : Reaches m d R) (hf : ∀ a d', R a d' → Reaches (f a) d' Q) : Reaches (m >>= f) d Q := by
  obtain ⟨a, d₁, h₁, hR⟩ := hm
  obtain ⟨b, d₂, h₂, hQ⟩ := hf a d₁ hR
  exact ⟨b, d₂, by simp [Bind.bind, EStateM.bind, h₁, h₂], hQ⟩

/-- The next step starts where the first one gets to. -/
theorem reaches_bind {m : Walk α} {f : α → Walk β} {Q : β → Draft → Prop}
    (h : Reaches m d fun a d' => Reaches (f a) d' Q) : Reaches (m >>= f) d Q :=
  h.bind fun _ _ h => h

theorem Reaches.mono {m : Walk α} {R Q : α → Draft → Prop} (hm : Reaches m d R)
    (h : ∀ a d', R a d' → Q a d') : Reaches m d Q := by
  obtain ⟨a, d', hd, hR⟩ := hm
  exact ⟨a, d', hd, h a d' hR⟩

theorem reaches_pure {a : α} {Q : α → Draft → Prop} (h : Q a d) : Reaches (pure a) d Q :=
  ⟨a, d, rfl, h⟩

theorem reaches_get {Q : Draft → Draft → Prop} (h : Q d d) : Reaches get d Q := ⟨d, d, rfl, h⟩

theorem reaches_check {r : Except Fault α} {a : α} (hr : r = .ok a) {Q : α → Draft → Prop}
    (h : Q a d) : Reaches (check r) d Q := by
  subst hr
  exact ⟨a, d, rfl, h⟩

theorem reaches_setAttribute {a : Attribute} {v : Value} {Q : Unit → Draft → Prop}
    (h : Q () (d.put a v)) : Reaches (setAttribute a v) d Q :=
  ⟨(), _, rfl, h⟩

theorem reaches_report {found : Diagnostic} {Q : Unit → Draft → Prop} (h : Q () (d.tell found)) :
    Reaches (report found) d Q :=
  ⟨(), _, rfl, h⟩

theorem reaches_failAttribute {a : Attribute} {found : Diagnostic} {Q : Unit → Draft → Prop}
    (h : Q () (d.refuse found a)) : Reaches (failAttribute a) (d.tell found) Q :=
  ⟨(), _, rfl, h⟩

theorem reaches_oblige {node : Node} {goal : Goal} {Q : Unit → Draft → Prop}
    (h : Q () (d.owe node goal)) : Reaches (oblige node goal) d Q :=
  ⟨(), _, rfl, h⟩

theorem reaches_openScope {parent : ScopeId} {kind : ScopeKind} {Q : ScopeId → Draft → Prop}
    (h : Q ⟨d.tables.scopes.size⟩ (d.opening parent kind)) : Reaches (openScope parent kind) d Q :=
  ⟨_, _, rfl, h⟩

theorem reaches_declareAt {node : Node} {name : String} {kind : DeclarationKind}
    {Q : DeclId → Draft → Prop}
    (h : Q ⟨d.size⟩ (d.declaring { name, kind, node := some node.id, span := node.span })) :
    Reaches (declareAt node name kind) d Q :=
  ⟨_, _, rfl, h⟩

theorem reaches_registerSignature {s : Signature} {id : DeclId} {Q : Unit → Draft → Prop}
    (h : Q () (d.listing s id)) : Reaches (registerSignature s id) d Q :=
  ⟨(), _, rfl, h⟩

theorem reaches_bindName {scope : ScopeId} (hs : scope.index < d.tables.scopes.size) {name : String}
    {id : DeclId} {Q : Unit → Draft → Prop}
    (h : ∀ scopes, d.tables.scopes.Binds scope name id scopes → Q () (d.withScopes scopes)) :
    Reaches (bindName scope name id) d Q := by
  obtain ⟨scopes, hd, hb⟩ := ScopeTable.declare_eq_ok hs name id
  refine ⟨(), d.withScopes scopes, ?_, h scopes hb⟩
  show (check (d.tables.scopes.declare scope name id) >>= fun scopes => set (d.withScopes scopes)) d = _
  rw [hd]
  rfl

theorem reaches_modifyDeclaration {id : DeclId} (hid : id.index < d.size)
    {f : Declaration → Declaration} {Q : Unit → Draft → Prop}
    (h : ∀ declarations, d.tables.declarations.Changes id f declarations →
      Q () (d.withDeclarations declarations)) : Reaches (modifyDeclaration id f) d Q := by
  obtain ⟨declarations, hd, hc⟩ := Declarations.modify_eq_ok hid f
  refine ⟨(), d.withDeclarations declarations, ?_, h declarations hc⟩
  show (check (d.tables.declarations.modify id f) >>= fun declarations =>
    set (d.withDeclarations declarations)) d = _
  rw [hd]
  rfl

theorem reaches_declaration {id : DeclId} {x : Declaration}
    (hx : d.tables.declarations.items[id.index]? = some x) {Q : Declaration → Draft → Prop}
    (h : Q x d) : Reaches (declaration id) d Q :=
  reaches_bind (reaches_get (reaches_check (Declarations.get_eq_ok.2 hx) h))

/-- Looking a name up changes nothing. -/
theorem reaches_lookup (hr : d.tables.scopes.Rooted) {scope : ScopeId}
    (hs : scope.index < d.tables.scopes.size) {name : String} {Q : Option Binding → Draft → Prop}
    (h : ∀ r, d.tables.scopes.Finds (ScopeTable.binds name) scope r → Q r d) :
    Reaches (lookup scope name) d Q := by
  obtain ⟨r, hsearch, hf⟩ := ScopeTable.search_finds hr (ScopeTable.binds name) hs hs
  exact reaches_bind (reaches_get (reaches_check hsearch (h r hf)))

end Walk

end ScriptAnalysis
