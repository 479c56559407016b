import ScriptAnalysis.Proofs.Typing.Positions
import ScriptAnalysis.Proofs.Typing.Solution

/-!
Rules by their inputs. An input of a rule is an attribute with a known solution that the draft supplies.
What a rule reads from its inputs is put together from what it reads from each (`Program.Reads`); a rule
conforms if it does so with what it reads, and if its outputs fail when there is nothing to read.
-/
namespace ScriptAnalysis

open Reaction

structure Program.Input (p : Program) (d : Draft) {α : Type} (wrap : α → Value) (a : Attribute)
    (o : Option α) : Prop where
  solved : (d.names p).solution a = some (.of wrap o)
  supplied : d.state.Supplies a

/-- Inputs that come to one result when they are set, and to none when one of them fails. -/
structure Program.Reads (p : Program) (d : Draft) {α : Type} (ins : List Attribute) (o : Option α)
    (shows : Attributes → α → Prop) : Prop where
  values : ∀ t, t.Within (d.names p).solution → (∀ a ∈ ins, t.isSet a = true) →
    ∃ x, o = some x ∧ shows t x
  fails : ∀ a ∈ ins, (d.names p).solution a = some .failed → o = none
  supplied : ∀ a ∈ ins, d.state.Supplies a

abbrev Program.Conforms (p : Program) (d : Draft) (K : Rule → Prop) (r : Rule) : Prop :=
  r.Conforms (d.names p).solution Attribute.rank d.state.Supplies K

abbrev Program.Final (p : Program) (d : Draft) (r : Rule) : Prop := p.Conforms d (fun _ => False) r

/-- A rule that conforms to the solution of a program, as do those that it chains. -/
abbrev Program.Sound (p : Program) (d : Draft) (r : Rule) : Prop := p.Conforms d (p.Final d) r

namespace Program

variable {p : Program} {d : Draft} {α β γ : Type} {wrap : α → Value} {a : Attribute}
  {ins ins' ins'' outs : List Attribute} {o : Option α} {o' : Option β} {o'' : Option γ}
  {shows : Attributes → α → Prop} {shows' : Attributes → β → Prop} {shows'' : Attributes → γ → Prop}
  {K : Rule → Prop} {t : Attributes} {label : String} {node : Node} {body : Reaction}

theorem Input.get (h : p.Input d wrap a o) (ht : t.Within (d.names p).solution)
    (hset : t.isSet a = true) : ∃ x, o = some x ∧ t.get? a = some (wrap x) := by
  obtain ⟨v, hv, hget⟩ := ht.get? h.solved hset
  obtain ⟨x, hx, rfl⟩ := Slot.of_eq_set hv
  exact ⟨x, hx, hget⟩

theorem Input.eq_none (h : p.Input d wrap a o) (hf : (d.names p).solution a = some .failed) :
    o = none := by
  rw [h.solved, Option.some.injEq] at hf
  exact Slot.of_eq_failed.1 hf

theorem Input.reads (h : p.Input d wrap a o) :
    p.Reads d [a] o fun t x => t.get? a = some (wrap x) where
  values t ht hset := h.get ht (hset a (by simp))
  fails b hb hf := by
    obtain rfl : b = a := by simpa using hb
    exact h.eq_none hf
  supplied b hb := by
    obtain rfl : b = a := by simpa using hb
    exact h.supplied

theorem reads_all {ι : Type} {attr : ι → Attribute} {opt : ι → Option α} {items : List ι}
    (hins : items.map attr = ins) (h : ∀ i ∈ items, p.Input d wrap (attr i) (opt i)) :
    p.Reads d ins (items.mapM opt) fun t xs =>
      List.Forall₂ (fun a x => t.get? a = some (wrap x)) ins xs := by
  subst hins
  refine ⟨fun t ht hset => ?_, fun b hb hf => ?_, fun b hb => ?_⟩
  · induction items with
    | nil => exact ⟨[], rfl, .nil⟩
    | cons i rest ih =>
      simp only [List.map_cons, List.forall_mem_cons] at h hset
      obtain ⟨x, hx, hget⟩ := h.1.get ht hset.1
      obtain ⟨xs, hxs, hgets⟩ := ih h.2 hset.2
      refine ⟨x :: xs, ?_, .cons hget hgets⟩
      rw [List.mapM_cons, hx, hxs]
      rfl
  · obtain ⟨i, hi, rfl⟩ := List.mem_map.1 hb
    exact mapM_eq_none hi ((h i hi).eq_none hf)
  · obtain ⟨i, hi, rfl⟩ := List.mem_map.1 hb
    exact (h i hi).supplied

theorem Reads.append (h : p.Reads d ins o shows) (h' : p.Reads d ins' o' shows') :
    p.Reads d (ins ++ ins') (o.bind fun x => o'.map (x, ·))
      fun t z => shows t z.1 ∧ shows' t z.2 where
  values t ht hset := by
    obtain ⟨x, hx, hshow⟩ := h.values t ht fun a ha => hset a (List.mem_append_left _ ha)
    obtain ⟨y, hy, hshow'⟩ := h'.values t ht fun a ha => hset a (List.mem_append_right _ ha)
    exact ⟨(x, y), by simp [hx, hy], hshow, hshow'⟩
  fails a ha hf := by
    rcases List.mem_append.1 ha with ha | ha
    · simp [h.fails a ha hf]
    · simp [h'.fails a ha hf]
  supplied a ha := by
    rcases List.mem_append.1 ha with ha | ha
    · exact h.supplied a ha
    · exact h'.supplied a ha

theorem Reads.bind {f : α → Option β} (h : p.Reads d ins o shows)
    (hf : ∀ t x, o = some x → shows t x → ∃ y, f x = some y ∧ shows' t y) :
    p.Reads d ins (o.bind f) shows' where
  values t ht hset := by
    obtain ⟨x, hx, hshow⟩ := h.values t ht hset
    obtain ⟨y, hy, hshow'⟩ := hf t x hx hshow
    exact ⟨y, by simp [hx, hy], hshow'⟩
  fails a ha hfail := by simp [h.fails a ha hfail]
  supplied := h.supplied

theorem Reads.conforms (h : p.Reads d ins o shows)
    (fires : ∀ t x, t.Within (d.names p).solution → o = some x → shows t x →
      body.Conforms (d.names p).solution K node outs false t)
    (blocks : o = none → ∀ b ∈ outs, (d.names p).solution b = some .failed)
    (ranked : ∀ b ∈ outs, ∀ a ∈ ins, a.rank < b.rank) :
    p.Conforms d K ⟨label, ins, outs, node, body⟩ where
  fires t ht hset := by
    obtain ⟨x, hx, hshow⟩ := h.values t ht hset
    exact fires t x ht hx hshow
  blocks a ha hf := blocks (h.fails a ha hf)
  ranked a ha b hb := ranked b hb a ha
  demands := h.supplied

theorem Reads.conforms₂ (h : p.Reads d ins o shows) (h' : p.Reads d ins' o' shows')
    (fires : ∀ t x y, t.Within (d.names p).solution → o = some x → o' = some y → shows t x →
      shows' t y → body.Conforms (d.names p).solution K node outs false t)
    (blocks : o = none ∨ o' = none → ∀ b ∈ outs, (d.names p).solution b = some .failed)
    (ranked : ∀ b ∈ outs, ∀ a ∈ ins ++ ins', a.rank < b.rank) :
    p.Conforms d K ⟨label, ins ++ ins', outs, node, body⟩ := by
  refine (h.append h').conforms (fun t z ht hz hshow => ?_) (fun hnone => blocks ?_) ranked
  · obtain ⟨x, hx, hz⟩ := Option.bind_eq_some_iff.1 hz
    obtain ⟨y, hy, rfl⟩ := Option.map_eq_some_iff.1 hz
    exact fires t x y ht hx hy hshow.1 hshow.2
  · cases o with
    | none => exact .inl rfl
    | some x => exact .inr (by simpa using hnone)

theorem Reads.conforms₃ (h : p.Reads d ins o shows) (h' : p.Reads d ins' o' shows')
    (h'' : p.Reads d ins'' o'' shows'')
    (fires : ∀ t x y z, t.Within (d.names p).solution → o = some x → o' = some y → o'' = some z →
      shows t x → shows' t y → shows'' t z →
      body.Conforms (d.names p).solution K node outs false t)
    (blocks : o = none ∨ o' = none ∨ o'' = none →
      ∀ b ∈ outs, (d.names p).solution b = some .failed)
    (ranked : ∀ b ∈ outs, ∀ a ∈ ins ++ ins' ++ ins'', a.rank < b.rank) :
    p.Conforms d K ⟨label, ins ++ ins' ++ ins'', outs, node, body⟩ := by
  refine (h.append h').conforms₂ h'' (fun t w z ht hw hz hshow hshow'' => ?_)
    (fun hnone => blocks ?_) ranked
  · obtain ⟨x, hx, hw⟩ := Option.bind_eq_some_iff.1 hw
    obtain ⟨y, hy, rfl⟩ := Option.map_eq_some_iff.1 hw
    exact fires t x y z ht hx hy hz hshow.1 hshow.2 hshow''
  · rcases hnone with hnone | hnone
    · cases o with
      | none => exact .inl rfl
      | some x => exact .inr (.inl (by simpa using hnone))
    · exact .inr (.inr hnone)

end Program

namespace Reaction

variable {sol : Solution} {K : Rule → Prop} {node : Node} {outs : List Attribute} {told : Bool}
  {t : Attributes} {a : Attribute}

theorem conforms_give {v : Value} (h : t.Within sol) (ha : sol a = some (.set v)) :
    Conforms sol K node [a] told (.set a v .done) t := by
  refine conforms_set (conforms_done (h.set ha) fun b hb => ?_)
  rw [List.mem_singleton.1 hb, Attributes.isKnown_set]
  simp

theorem conforms_refuse_one {x : Diagnostic} (h : t.Within sol) (ha : sol a = some .failed)
    (hx : x.cause.isStuck = false) : Conforms sol K node [a] told (refuse x [a]) t :=
  conforms_refuse h hx (by simpa using ha) (by simp)

theorem conforms_attempt {α : Type} {r : Except Fault α} {x : α} {next : α → Reaction}
    (hr : r = .ok x) (h : Conforms sol K node outs told (next x) t) :
    Conforms sol K node outs told (attempt r next) t := by
  subst hr
  exact h

theorem conforms_withText {n : Nat} {ty : Ty} {next : String → Reaction} (hty : ty.Regular n)
    (h : ∀ text, Conforms sol K node outs told (next text) t) :
    Conforms sol K node outs told (withText ty next) t := by
  obtain ⟨text, htext⟩ := hty.exists_render
  exact conforms_attempt htext (h text)

theorem conforms_reportType {n : Nat} {cause : String → Cause} {ty : Ty} {place : Node}
    {next : Reaction} (hc : ∀ text, (cause text).isStuck = false) (hty : ty.Regular n)
    (h : Conforms sol K node outs true next t) :
    Conforms sol K node outs told (reportType cause ty place next) t :=
  conforms_withText hty fun text => conforms_report (hc text) h

theorem conforms_reportTypes {n : Nat} {cause : String → String → Cause} {ty ty' : Ty} {place : Node}
    {next : Reaction} (hc : ∀ text text', (cause text text').isStuck = false) (hty : ty.Regular n)
    (hty' : ty'.Regular n) (h : Conforms sol K node outs true next t) :
    Conforms sol K node outs told (reportTypes cause ty ty' place next) t :=
  conforms_withText hty fun text => conforms_withText hty' fun text' =>
    conforms_report (hc text text') h

end Reaction

end ScriptAnalysis
