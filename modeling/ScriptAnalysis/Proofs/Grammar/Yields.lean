import ScriptAnalysis.Proofs.Grammar.Words

/-!
Parsers that succeed on given words. Each parser has one lemma that says on which words it does, which
words it leaves and what its result is.
-/
namespace ScriptAnalysis

open Word (mark firstKind)

namespace Parser

variable {α β σ : Type} {ws mid rest : List Word}

/-- The parser succeeds on the words, leaves the others, and its result is as stated. -/
def Yields (m : Parser α) (ws rest : List Word) (Q : α → Prop) : Prop :=
  ∀ c : Cursor, c.words = ws → c.setSuffix = true →
    ∃ a c', m c = .ok a c' ∧ c'.words = rest ∧ c'.setSuffix = true ∧ Q a

section Rules

theorem Yields.bind {m : Parser α} {f : α → Parser β} {R : α → Prop} {Q : β → Prop}
    (hm : Yields m ws mid R) (hf : ∀ a, R a → Yields (f a) mid rest Q) :
    Yields (m >>= f) ws rest Q := by
  intro c hc hset
  obtain ⟨a, s, hr, hs, hset', ha⟩ := hm c hc hset
  obtain ⟨b, c', hr', hb⟩ := hf a ha s hs hset'
  refine ⟨b, c', ?_, hb⟩
  simp only [Bind.bind, EStateM.bind, hr]
  exact hr'

theorem Yields.mono {m : Parser α} {R Q : α → Prop} (h : Yields m ws rest R) (hQ : ∀ a, R a → Q a) :
    Yields m ws rest Q := by
  intro c hc hset
  obtain ⟨a, c', hr, hws, hset', ha⟩ := h c hc hset
  exact ⟨a, c', hr, hws, hset', hQ a ha⟩

theorem yields_pure {a : α} {Q : α → Prop} (h : Q a) : Yields (pure a) ws ws Q := by
  intro c hc hset
  exact ⟨a, c, rfl, hc, hset, h⟩

theorem yields_get {f : Cursor → Parser β} {Q : β → Prop}
    (h : ∀ c, c.words = ws → c.setSuffix = true → Yields (f c) ws rest Q) :
    Yields (get >>= f) ws rest Q :=
  fun c hc hset => h c hc hset c hc hset

theorem yields_kind {f : TokenKind → Parser β} {Q : β → Prop}
    (h : Yields (f (firstKind ws)) ws rest Q) : Yields (kind >>= f) ws rest Q := by
  intro c hc hset
  rw [← hc, ← Cursor.kind_eq] at h
  exact h c rfl hset

theorem yields_advance (w : Word) (ws : List Word) : Yields advance (w :: ws) ws (·.word = w) := by
  intro c hc hset
  have hend : c.kind ≠ .eof := by
    intro heq
    rw [Cursor.words_eq_nil heq] at hc
    cases hc
  rw [Cursor.words_of_kind hend] at hc
  obtain ⟨hw, hws⟩ := List.cons.inj hc
  refine ⟨c.current, c.next, rfl, hws, ?_, hw⟩
  unfold Cursor.next
  split <;> exact hset

theorem yields_expect (k : TokenKind) (text : String) (ws : List Word) :
    Yields (expect k) (⟨k, text⟩ :: ws) ws (·.word = ⟨k, text⟩) := by
  refine yields_get ?_
  intro c hc hset
  rw [if_pos (by rw [Cursor.kind_eq, hc]; rfl)]
  exact yields_advance _ ws

theorem yields_name (name : String) (ws : List Word) :
    Yields (expect .identifier) (⟨.identifier, name⟩ :: ws) ws (·.value = name) := by
  intro c hc hset
  obtain ⟨t, c', hr, hws, hset', ht⟩ := yields_expect .identifier name ws c hc hset
  exact ⟨t, c', hr, hws, hset', (Token.eq_of_word ht rfl).2⟩

theorem yields_discard {m : Parser α} {R : α → Prop} (h : Yields m ws rest R) :
    Yields (discard m) ws rest fun _ => True := by
  intro c hc hset
  obtain ⟨a, c', hr, hws, hset', _⟩ := h c hc hset
  refine ⟨(), c', ?_, hws, hset', trivial⟩
  simp only [discard, Functor.mapConst, EStateM.map, Function.comp, hr]

theorem yields_nodeAt (span : Span) : Yields (nodeAt span) ws ws fun _ => True :=
  fun _ hc hset => ⟨_, _, rfl, hc, hset, trivial⟩

theorem yields_nodeFrom (start : Position) : Yields (nodeFrom start) ws ws fun _ => True :=
  yields_get fun _ _ _ => yields_nodeAt _

/-- A repetition that has as many rounds as there are words. -/
theorem yields_iterate {step : σ → Parser (σ ⊕ α)} {s : σ} {Q : α → Prop}
    (h : ∀ fuel, ws.length < fuel → Yields (repeatWithin step fuel s) ws rest Q) :
    Yields (iterate step s) ws rest Q := by
  refine yields_get ?_
  intro c hc _
  have := c.length_words_le
  rw [hc] at this
  exact h _ (by omega)

theorem yields_go_on {step : σ → Parser (σ ⊕ α)} {s : σ} {R : σ → Prop} {Q : α → Prop} {fuel : Nat}
    (h : Yields (step s) ws mid fun r => ∃ s', r = .inl s' ∧ R s') (hlt : mid.length < ws.length)
    (hfuel : ws.length < fuel)
    (hmore : ∀ s' fuel, R s' → mid.length < fuel → Yields (repeatWithin step fuel s') mid rest Q) :
    Yields (repeatWithin step fuel s) ws rest Q := by
  obtain ⟨fuel, rfl⟩ := Nat.exists_eq_add_of_lt (Nat.lt_of_le_of_lt (Nat.zero_le _) hfuel)
  rw [Nat.zero_add]
  refine h.bind ?_
  rintro r ⟨s', rfl, hs'⟩
  exact hmore s' fuel hs' (by omega)

theorem yields_end {step : σ → Parser (σ ⊕ α)} {s : σ} {Q : α → Prop} {fuel : Nat}
    (h : Yields (step s) ws rest fun r => ∃ a, r = .inr a ∧ Q a) (hfuel : ws.length < fuel) :
    Yields (repeatWithin step fuel s) ws rest Q := by
  obtain ⟨fuel, rfl⟩ := Nat.exists_eq_add_of_lt (Nat.lt_of_le_of_lt (Nat.zero_le _) hfuel)
  rw [Nat.zero_add]
  refine h.bind ?_
  rintro r ⟨a, rfl, ha⟩
  exact yields_pure ha

end Rules

end Parser

end ScriptAnalysis
