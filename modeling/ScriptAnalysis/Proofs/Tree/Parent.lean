import Mathlib.Data.List.Pairwise
import ScriptAnalysis.Proofs.Tree.Nesting
import ScriptAnalysis.Proofs.Tree.Order

/-!
What sites are part of. Every site of a program is one of its statements or a part of another site
(`Site.Rooted.cases`), and of one only (`Program.Numbered.eq_of_part`); the surroundings of a site are
those of the program or of a statement that opens a scope (`Program.home_of_site`).
-/
namespace ScriptAnalysis

namespace Site

theorem setting_of_mem_ofExpr {st : Setting} {e : Expr} {s : Site} (h : s ∈ ofExpr st e) : s.setting = st := by
  cases e <;> simp only [ofExpr, List.mem_append, List.mem_cons, List.mem_map, List.not_mem_nil] at h <;> grind

/-- No name is declared inside of an expression. -/
theorem parts_expr {st : Setting} {role : Role} {e : Expr} {s : Site}
    (h : s ∈ parts ⟨st, .expr role e⟩) :
    (∀ sort b, s.part ≠ .binder sort b) ∧ ∀ b value, s.part ≠ .expr (.value b) value := by
  cases e <;> simp only [parts, ofExpr, List.mem_append, List.mem_cons, List.mem_map, List.not_mem_nil] at h <;>
    grind

end Site

open Site (parts premises ofExpr ofStmt)

namespace Program

variable {p : Program}

/-- A type parameter is one of a template, in the surroundings that the template makes. -/
theorem exists_template {st : Setting} {b : Binder} (h : ⟨st, .binder .typeParameter b⟩ ∈ p.sites) :
    ∃ st' node head inner body, ⟨st', .stmt (.template node head inner body)⟩ ∈ p.sites ∧
      b ∈ head.typeParameters ∧ st = head.setting node := by
  rcases p.laid_sites.rooted.cases h with h | ⟨⟨st', part⟩, ht, h⟩
  · simp at h
  · cases part with
    | stmt x =>
      cases x with
      | template node head inner body =>
        refine ⟨st', node, head, inner, body, ht, ?_⟩
        simp only [parts, premises, ofStmt, List.mem_append, List.mem_map, List.mem_cons, List.not_mem_nil] at h
        simp_all
      | ret node value => cases value <;> simp [parts, premises, ofStmt] at h
      | _ => simp [parts, premises, ofStmt] at h
    | written t => cases t <;> simp [parts, premises] at h
    | expr role e => exact absurd rfl ((Site.parts_expr h).1 _ _)
    | _ => simp [parts, premises] at h

namespace Numbered

variable (hp : p.Numbered) {s t t' : Site}
include hp

theorem distinct_allParts : Site.Distinct (p.sites.flatMap parts) := by
  obtain ⟨_, hi, ha⟩ := hp
  have hsites := (p.laid_sites.rooted.pairwise_iff fun h => h.symm).1 (Site.distinct_of_ascending ha)
  exact (List.pairwise_append.1 hsites).2.1

theorem distinct_parts (ht : t ∈ p.sites) : Site.Distinct t.parts :=
  (List.pairwise_flatMap.1 hp.distinct_allParts).1 t ht

theorem eq_of_part (ht : t ∈ p.sites) (ht' : t' ∈ p.sites) (hs : s ∈ t.parts) (hs' : s ∈ t'.parts) : t = t' := by
  by_contra hne
  have hapart := (List.pairwise_flatMap.1 hp.distinct_allParts).2
  have hsymm : Std.Symm fun t t' : Site => ∀ x ∈ t.parts, ∀ y ∈ t'.parts, x.id ≠ y.id :=
    ⟨fun _ _ h x hx y hy => (h y hy x hx).symm⟩
  exact hapart.forall ht ht' hne s hs s hs' rfl

end Numbered

end Program

namespace Site

variable {s t : Site}

def stmts (s : Site) : List Stmt :=
  match s.part with
  | .stmt x => [x]
  | .body _ body => body
  | _ => []

/-- The parts of a site have its surroundings, unless it is a statement that opens a scope; then the result
type that they are in is that of the site, none, or one of the parts. -/
theorem setting_of_part (h : s ∈ t.parts) : s.setting = t.setting ∨
    ∃ x ∈ t.stmts, ∃ o, x.opener? = some o ∧ o.node = s.setting.home ∧
      (s.setting.result = t.setting.result ∨ s.setting.result = none ∨
        ∃ r, s.setting.result = some r ∧ ⟨s.setting, .written r⟩ ∈ t.parts) := by
  obtain ⟨st, part⟩ := t
  cases part with
  | expr role e => exact .inl (setting_of_mem_ofExpr h)
  | stmt x =>
    cases x with
    | block node body =>
      obtain ⟨y, _, rfl⟩ := List.mem_map.1 h
      exact .inr ⟨_, List.mem_cons_self, _, rfl, rfl, .inl rfl⟩
    | function node head inner body =>
      have hresult : ⟨head.setting node, .written head.result⟩ ∈ ofStmt st (.function node head inner body) := by
        simp [ofStmt]
      have hsetting : s.setting = head.setting node := by
        simp only [parts, premises, ofStmt, List.mem_append, List.mem_map, List.mem_cons, List.not_mem_nil] at h
        grind
      exact .inr ⟨_, List.mem_cons_self, _, rfl, hsetting ▸ rfl, .inr (.inr ⟨_, hsetting ▸ rfl, hsetting ▸ hresult⟩)⟩
    | template node head inner body =>
      have hresult : ⟨head.setting node, .written head.result⟩ ∈ ofStmt st (.template node head inner body) := by
        simp [ofStmt]
      have hsetting : s.setting = head.setting node := by
        simp only [parts, premises, ofStmt, List.mem_append, List.mem_map, List.mem_cons, List.not_mem_nil] at h
        grind
      exact .inr ⟨_, List.mem_cons_self, _, rfl, hsetting ▸ rfl, .inr (.inr ⟨_, hsetting ▸ rfl, hsetting ▸ hresult⟩)⟩
    | cls node head inner body =>
      obtain rfl := List.mem_singleton.1 h
      exact .inr ⟨_, List.mem_cons_self, _, rfl, rfl, .inr (.inl rfl)⟩
    | ret node value => cases value <;> simp_all [parts, premises, ofStmt]
    | _ =>
      simp only [parts, premises, ofStmt, List.mem_map, List.mem_cons, List.not_mem_nil] at h
      grind
  | written t => cases t <;> simp_all [parts, premises]
  | body node stmts =>
    obtain ⟨x, _, rfl⟩ := List.mem_map.1 h
    exact .inl rfl
  | _ => simp_all [parts, premises]

/-- The statements of the parts of a site are its own or directly inside of them. -/
theorem stmts_of_part (h : s ∈ t.parts) {y : Stmt} (hy : y ∈ s.stmts) : ∃ x ∈ t.stmts, y = x ∨ y ∈ x.inner := by
  obtain ⟨st, part⟩ := t
  cases part with
  | expr role e => 
    cases e <;> simp only [parts, ofExpr, List.mem_append, List.mem_cons, List.mem_map, List.not_mem_nil] at h <;>
      grind [stmts]
  | stmt x =>
    cases x with
    | ret node value => cases value <;> simp_all [parts, premises, ofStmt, stmts]
    | _ =>
      refine ⟨_, List.mem_cons_self, .inr ?_⟩
      simp only [parts, premises, ofStmt, List.mem_append, List.mem_map, List.mem_cons, List.not_mem_nil] at h
      simp only [Stmt.inner]
      grind [stmts]
  | written t => cases t <;> simp_all [parts, premises, stmts]
  | body node body =>
    obtain ⟨x, hx, rfl⟩ := List.mem_map.1 h
    exact ⟨x, hx, .inl (List.mem_singleton.1 hy)⟩
  | _ => simp_all [parts, premises, stmts]

end Site

namespace Program

variable {p : Program} {s : Site}

theorem nested_of_site (hs : s ∈ p.sites) : ∀ x ∈ s.stmts, ∃ around, ⟨around, x⟩ ∈ p.nested := by
  refine site_induction (P := fun s => ∀ x ∈ s.stmts, ∃ around, ⟨around, x⟩ ∈ p.nested)
    (fun x hx y hy => ?_) (fun t _ ih s hs y hy => ?_) s hs
  · obtain rfl := List.mem_singleton.1 hy
    exact ⟨[], p.laid_nested.root (List.mem_map_of_mem hx)⟩
  · obtain ⟨x, hx, rfl | hin⟩ := Site.stmts_of_part hs hy
    · exact ih y hx
    · obtain ⟨around, hn⟩ := ih x hx
      exact ⟨_, p.laid_nested.inner _ hn (List.mem_map_of_mem hin)⟩

/-- The surroundings of a site are those of the program or of a statement that opens a scope. -/
theorem home_of_site (hs : s ∈ p.sites) :
    s.setting.home = p.node.id ∨ ∃ y ∈ p.openings, y.2.node = s.setting.home := by
  refine site_induction (P := fun s => s.setting.home = p.node.id ∨ ∃ y ∈ p.openings, y.2.node = s.setting.home)
    (fun _ _ => .inl rfl) (fun t ht ih s hs => ?_) s hs
  rcases Site.setting_of_part hs with hsetting | ⟨x, hx, o, ho, hnode, _⟩
  · rwa [hsetting]
  · obtain ⟨around, hn⟩ := nested_of_site ht x hx
    exact .inr ⟨(around, o), mem_openings hn ho, hnode⟩

/-- The result type of the function around a site is written in the program. -/
theorem exists_result (hs : s ∈ p.sites) {r : TypeExpr} (h : s.setting.result = some r) :
    ∃ st, ⟨st, .written r⟩ ∈ p.sites := by
  refine site_induction (P := fun s => s.setting.result = some r → ∃ st, ⟨st, .written r⟩ ∈ p.sites)
    (fun _ _ hnone => by cases hnone) (fun t ht ih s hs hr => ?_) s hs h
  rcases Site.setting_of_part hs with hsetting | ⟨_, _, _, _, _, hresult | hnone | ⟨r', hr', hwritten⟩⟩
  · exact ih (hsetting ▸ hr)
  · exact ih (hresult ▸ hr)
  · rw [hnone] at hr
    cases hr
  · obtain rfl := Option.some.inj (hr'.symm.trans hr)
    exact ⟨_, p.laid_sites.rooted.part ht hwritten⟩

end Program

end ScriptAnalysis
