import ScriptAnalysis.Proofs.Grammar.Numbering
import ScriptAnalysis.Proofs.Typing.Walk.Stmt
import ScriptAnalysis.Typing.Analysis

/-!
The draft of a whole program: the built-in names come first, then the sites of the program, and the
draft says nothing else (`Program.drafted`).
-/
namespace ScriptAnalysis

open Set (Ico)

namespace Draft

variable {d d' : Draft} {V N : Set Nat} {k : Nat}

structure HasBuiltin (d : Draft) (i : Nat) (b : Builtin) : Prop where
  item : ∃ x, d.tables.declarations.items[i]? = some x ∧ x.node = none ∧ x.kind.blank = b.kind
  slots : ∀ κ, d.attributes.slot? ⟨.decl ⟨i⟩, κ⟩ =
    match κ with
    | .type => typed b.type
    | .declared => b.declared.map fun t => .set (.type t)
    | _ => none

theorem HasBuiltin.mono {i : Nat} {b : Builtin} (h : d.HasBuiltin i b) (g : Grown V N k d d')
    (hk : i < k) : d'.HasBuiltin i b where
  item := by
    obtain ⟨x, hx, hnode, hkind⟩ := h.item
    obtain ⟨x', hx', _, hnode', hkind'⟩ := g.declarations _ x hx
    exact ⟨x', hx', hnode'.trans hnode, hkind'.trans hkind⟩
  slots κ := (g.kept ⟨i⟩ hk κ).trans (h.slots κ)

structure Opened (bs : List Builtin) (d : Draft) : Prop where
  sound : d.Sound
  size : d.size = bs.length
  root : d.tables.scopes.Finds ScopeTable.owner ScopeTable.root (some none)
  builtins : ∀ i b, bs[i]? = some b → d.HasBuiltin i b
  fresh : ∀ n, d.entry n = {}

private theorem eq_root {i : Nat} {s : Scope} (h : ScopeTable.initial.scopes[i]? = some s) :
    s = { parent := none, kind := .root } := by
  cases i with
  | zero => exact (Option.some.inj h).symm
  | succ i => simp [ScopeTable.initial] at h

theorem opened_nil : Opened [] {} where
  sound := by
    refine ⟨⟨by decide, fun i s hs p hp => ?_⟩, fun i s hs b hb => ?_, fun i s hs id hid => ?_,
      fun i x hx => ?_, fun s i hi => ?_, fun i x hx => ?_, fun n κ v hv => ?_,
      fun _ _ _ => Attributes.slot?_empty _,
      fun a ha => ?_, fun x hx => ?_⟩
    · rw [eq_root hs] at hp
      cases hp
    · rw [eq_root hs] at hb
      cases hb
    · rw [eq_root hs] at hid
      cases hid
    · simp at hx
    · simp [Signatures.get?] at hi
    · simp at hx
    · simp at hv
    · simp [Attributes.isFailed] at ha
    · simp at hx
  size := rfl
  root := .here (s := { parent := none, kind := .root }) rfl rfl
  builtins i b hb := by simp at hb
  fresh n := by
    ext1
    · funext κ
      exact Attributes.slot?_empty _
    · rfl
    · rfl
    · rfl

end Draft

namespace Builtin

/-- Built-in names are complete when they are declared, and none of them is a variable. -/
theorem kind_of_mem : ∀ b ∈ all, b.kind.mentions = [] ∧ b.kind.blank = b.kind ∧
    b.kind ≠ .variable := by decide

end Builtin

/-- Only variables have to come before the nodes that are walked next, and no built-in name is one. -/
theorem Draft.Opened.ready {d : Draft} (h : d.Opened Builtin.all) : d.Ready Set.univ where
  sound := h.sound
  fresh n _ := h.fresh n
  before i s hs b hb := by
    have hlt := h.sound.bound i s hs b hb
    obtain ⟨x, hx, _, hk⟩ := (h.builtins b.2.index _ (List.getElem?_eq_getElem (h.size ▸ hlt))).item
    refine ⟨x, hx, fun hv => ?_⟩
    rw [hv] at hk
    exact absurd hk.symm (Builtin.kind_of_mem _ (List.getElem_mem _)).2.2

namespace Walk

open Draft

/-- Sets the type that a declaration introduces, if there is one. -/
def setIntroduced (id : DeclId) (introduced : Option Ty) : Walk Unit :=
  match introduced with
  | some t => setAttribute (.declaredBy id) (.type t)
  | none => return

theorem reaches_declareBuiltin {bs : List Builtin} {d : Draft} (b : Builtin) (h : d.Opened bs)
    (hb : b ∈ Builtin.all) (hlt : bs.length < Builtin.all.length) :
    Reaches b.declare d fun _ d' => d'.Opened (bs ++ [b]) := by
  obtain ⟨hmentions, hblank, hvar⟩ := Builtin.kind_of_mem b hb
  have hsize := h.size
  have hdeclare : Reaches (declare { name := b.name, kind := b.kind, node := none, span := .null }) d
      fun id d₁ => id = ⟨d.size⟩ ∧ d₁ = d.declaring
        { name := b.name, kind := b.kind, node := none, span := .null } := ⟨_, _, rfl, rfl, rfl⟩
  refine hdeclare.bind fun id d₁ hdeclared => ?_
  obtain ⟨rfl, h₁⟩ := hdeclared
  have g₁ : Grown ∅ ∅ d.size d d₁ := h₁ ▸ grown_declaring h.sound (by simp) (by simp [hmentions])
    (by omega)
  have hitem : d₁.tables.declarations.items[d.size]? =
      some { name := b.name, kind := b.kind, node := none, span := .null } := by
    have hget := Declarations.add_getElem? (t := d.tables.declarations)
      { name := b.name, kind := b.kind, node := none, span := .null } d.tables.declarations.size
    rw [if_pos rfl] at hget
    exact h₁ ▸ hget
  have hlt₁ : d.size < d₁.size := Declarations.lt_size_of_getElem? hitem
  have hroot : ScopeTable.root.index < d₁.tables.scopes.size :=
    Nat.lt_of_lt_of_le h.sound.rooted.1 g₁.scopes.size_le
  refine (reaches_bindName hroot (Q := fun _ d₂ => Grown ∅ ∅ d.size d₁ d₂ ∧
    d₂.attributes = d₁.attributes ∧ d₂.tables.declarations = d₁.tables.declarations)
    fun scopes hbinds => ⟨grown_withScopes g₁.sound hbinds
      ⟨_, hitem, fun hk => absurd hk hvar⟩, rfl, rfl⟩).bind fun _ d₂ hbound => ?_
  obtain ⟨g₂, ha₂, hd₂⟩ := hbound
  refine (reaches_setAttribute (Q := fun _ d' => d' = _) rfl).bind fun _ d₃ h₃ => ?_
  have hlt₂ : d.size < d₂.size := Nat.lt_of_lt_of_le hlt₁ g₂.size_le
  have g₃ : Grown ∅ ∅ d.size d₂ d₃ := h₃ ▸
    grown_put_decl g₂.sound (Nat.le_refl _) hlt₂ .type (.type b.type)
  have hlast : Reaches (setIntroduced ⟨d.size⟩ b.declared) d₃ fun _ d₄ => Grown ∅ ∅ d.size d₃ d₄ ∧
        d₄.tables.declarations = d₃.tables.declarations ∧
        ∀ κ, d₄.attributes.slot? ⟨.decl ⟨d.size⟩, κ⟩ =
          match κ with
          | .type => typed b.type
          | .declared => b.declared.map fun t => .set (.type t)
          | _ => none := by
    have hslots : ∀ κ, d₃.attributes.slot? ⟨.decl ⟨d.size⟩, κ⟩ =
        if κ = .type then typed b.type else none := by
      intro κ
      have hnone := h.sound.unwritten ⟨d.size⟩ (Nat.le_refl _)
      rw [h₃, put, Attributes.slot?_set, ha₂, h₁]
      by_cases hκ : κ = .type
      · simp [hκ, declaring, hnone]
      · simp [hκ, Ne.symm hκ, declaring, hnone]
    cases hdeclared : b.declared with
    | none =>
      refine reaches_pure ⟨.refl g₃.sound, rfl, fun κ => ?_⟩
      rw [hslots]
      cases κ <;> simp
    | some t =>
      refine reaches_setAttribute ⟨grown_put_decl g₃.sound (Nat.le_refl _)
        (Nat.lt_of_lt_of_le hlt₂ g₃.size_le) .declared _, rfl, fun κ => ?_⟩
      rw [put, Attributes.slot?_set, hslots, hslots]
      cases κ <;> simp
  refine hlast.mono ?_
  rintro _ d₄ ⟨g₄, hd₄, hslots⟩
  have g := g₁.trans (g₂.trans (g₃.trans g₄))
  have hd : d₄.tables.declarations = d₁.tables.declarations := by
    rw [hd₄, h₃]
    exact hd₂
  have hsize₄ : d₄.size = d.size + 1 := by
    rw [size, hd, h₁]
    exact Declarations.size_add _
  refine ⟨g.sound, by simp [hsize₄, hsize], h.root.owner_of_extends g.scopes, fun i b' hb' => ?_,
    fun n => (g.frame n (by simp)).trans (h.fresh n)⟩
  rw [List.getElem?_append] at hb'
  split at hb'
  · next hi => exact (h.builtins i b' hb').mono g (by omega)
  · next hi =>
    obtain ⟨hzero, rfl⟩ : i - bs.length = 0 ∧ b = b' := by
      have hone := List.getElem?_eq_some_iff.1 hb'
      simp only [List.length_singleton] at hone
      obtain ⟨hlt', hget⟩ := hone
      exact ⟨by omega, by simpa using hget⟩
    obtain rfl : i = d.size := by omega
    exact ⟨⟨_, hd ▸ hitem, rfl, hblank⟩, hslots⟩

theorem reaches_declareAll : Reaches Builtin.declareAll {} fun _ d => d.Opened Builtin.all := by
  have hrest : ∀ (rest bs : List Builtin) (d : Draft), bs ++ rest = Builtin.all → d.Opened bs →
      Reaches (rest.forM Builtin.declare) d fun _ d' => d'.Opened Builtin.all := by
    intro rest
    induction rest with
    | nil =>
      intro bs d hall h
      rw [List.append_nil] at hall
      exact reaches_pure (hall ▸ h)
    | cons b rest ih =>
      intro bs d hall h
      have hb : b ∈ Builtin.all := by simp [← hall]
      have hlt : bs.length < Builtin.all.length := by simp [← hall]
      refine (reaches_declareBuiltin b h hb hlt).bind fun _ d₁ h₁ => ?_
      exact ih (bs ++ [b]) d₁ (by simpa using hall) h₁
  exact hrest Builtin.all [] {} rfl opened_nil

end Walk

structure Program.Drafted (p : Program) (d : Draft) : Prop where
  sound : d.Sound
  leaves : ∀ s ∈ p.sites, s.Leaves d (d.entry s.id)
  own : d.entry p.node.id = ({} : Entry).put .scope (.set (.scope ScopeTable.root))
  only : ∀ n, n ≠ p.node.id → (∀ s ∈ p.sites, s.id ≠ n) → d.entry n = {}
  builtins : ∀ i b, Builtin.all[i]? = some b → d.HasBuiltin i b

open Draft Walk in
theorem Program.drafted {p : Program} (h : p.Numbered) :
    ∃ d, Draft.after (do
      Builtin.declareAll
      Walk.program p) = .ok d ∧ p.Drafted d := by
  obtain ⟨hid, hi, ha⟩ := h
  have hwalk : Reaches (do
      Builtin.declareAll
      Walk.program p) {} fun _ d => p.Drafted d := by
    refine reaches_declareAll.bind fun _ d₀ h₀ => ?_
    refine (reaches_setAttribute (Q := fun _ d' => d' = _) rfl).bind fun _ d₁ h₁ => ?_
    have g₁ : ∀ k, Grown ∅ {p.node.id.index} k d₀ d₁ := fun k =>
      h₁ ▸ grown_put h₀.sound (Set.mem_singleton _) _ h₀.sound.rooted.1
    have e₁ : d₁.entry p.node.id = ({} : Entry).put .scope (.set (.scope ScopeTable.root)) := by
      rw [h₁, entry_put, if_pos rfl, h₀.fresh]
    have hzero : p.node.id.index = 0 := by rw [hid]
    have hr₁ : d₁.Ready (Ico 1 hi) := by
      refine h₀.ready.step (g₁ 0) (Set.subset_univ _) (by simp) fun n hn hm => ?_
      rw [Set.mem_singleton_iff.1 hm, hzero] at hn
      exact absurd hn.1 (by decide)
    have hat : d₁.At p.setting ScopeTable.root := by
      refine ⟨h₁ ▸ opens_put (by rw [h₀.fresh]) h₀.sound.rooted.1, some none, ?_, rfl⟩
      exact h₀.root.owner_of_extends (g₁ 0).scopes
    refine (walks_stmts p.body _ _ _ _ _ ha hr₁ hat).mono fun _ d₂ h₂ => ?_
    refine ⟨h₂.grown.sound, h₂.leaves, ?_, fun n hn hs => ?_, fun i b hb => ?_⟩
    · rw [h₂.grown.frame _ fun hm => absurd hm.1 (by rw [hzero]; decide), e₁]
    · rw [h₂.only n (by simp) hs, (g₁ 0).frame n fun hm => hn ?_, h₀.fresh]
      cases n
      rw [hid]
      exact congrArg NodeId.mk ((Set.mem_singleton_iff.1 hm).trans hzero)
    · have hi : i < d₀.size := by
        rw [h₀.size]
        exact (List.getElem?_eq_some_iff.1 hb).1
      have hi₁ : i < d₁.size := Nat.lt_of_lt_of_le hi (g₁ 0).size_le
      exact ((h₀.builtins i b hb).mono (g₁ _) hi).mono h₂.grown hi₁
  obtain ⟨_, d, hd, hQ⟩ := hwalk
  exact ⟨d, by simp only [Draft.after, hd], hQ⟩

end ScriptAnalysis
