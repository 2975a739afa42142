import Maeglagi.KnowledgeGraph.Response

/-!
# Ids of shown edges

An edge is shown under a printed UUID, or under a text of its ends that no UUID is printed as.
The UUIDs of the links that the response adds are made from names that tell them apart.
-/

namespace Maeglagi

open Core

/-- UUIDs are printed in lower-case hexadecimal digits and dashes. -/
def Runtime.PrintsHex {Id : Type} (rt : Runtime Id) : Prop :=
  ∀ id, ∀ c ∈ rt.str id, c = '-' ∨ c.isDigit = true ∨ ('a' ≤ c ∧ c ≤ 'f')

theorem Runtime.PrintsHex.notMem {Id : Type} {rt : Runtime Id} (h : rt.PrintsHex) {c : Char}
    (hc : c ≠ '-' ∧ c.isDigit = false ∧ ¬('a' ≤ c ∧ c ≤ 'f')) (id : Id) : c ∉ rt.str id := by
  intro hmem
  rcases h id c hmem with heq | hdigit | hletter
  · exact hc.1 heq
  · rw [hc.2.1] at hdigit
    cases hdigit
  · exact hc.2.2 hletter

namespace KnowledgeGraph

open Graph Resolution

variable {Id H : Type}

/-- What the id of an edge is made of. -/
inductive EdgeId (Id : Type) where
  | uuid (id : Id)
  | unnamed (source : Id) (kind : RelationKind) (target : Id)
  | supersedes (successor old : Id)

/-- The id as a text. -/
def EdgeId.text (rt : Runtime Id) : EdgeId Id → Text
  | .uuid id => rt.str id
  | .unnamed source kind target =>
    rt.str source ++ '-' :: (kind.value ++ '-' :: rt.str target)
  | .supersedes successor old => rt.str successor ++ "-supersedes-".toList ++ rt.str old

/-- The texts of the relation kinds start in upper case and have no dash. -/
theorem value_head (kind : RelationKind) :
    (∀ c ∈ kind.value.head?, c.isUpper = true) ∧ kind.value ≠ [] ∧ '-' ∉ kind.value := by
  refine ⟨fun c hc => ?_, ?_, ?_⟩
  · cases kind <;> cases hc <;> rfl
  · cases kind <;> decide +kernel
  · cases kind <;> decide +kernel

section text

variable {rt : Runtime Id}

theorem isUpper_of_mem_str (h : rt.PrintsHex) {id : Id} {c : Char} (hc : c ∈ rt.str id) :
    c.isUpper = false := by
  rcases h id c hc with rfl | hdigit | ⟨hfrom, -⟩
  · rfl
  · have hnine : c.val ≤ 57 := of_decide_eq_true (Bool.and_eq_true_iff.mp hdigit).2
    exact decide_eq_false fun hupper => absurd (UInt32.le_trans hupper.1 hnine) (by decide)
  · exact decide_eq_false fun hupper => absurd (UInt32.le_trans hfrom hupper.2) (by decide)

theorem exists_isUpper_unnamed (rt : Runtime Id) (source : Id) (kind : RelationKind) (target : Id) :
    ∃ c ∈ (EdgeId.unnamed source kind target).text rt, c.isUpper = true := by
  obtain ⟨hupper, hne, -⟩ := value_head kind
  obtain ⟨c, rest, hvalue⟩ := List.exists_cons_of_ne_nil hne
  refine ⟨c, ?_, hupper c (by rw [hvalue]; rfl)⟩
  simp [EdgeId.text, hvalue]

/-- The text tells what an id is made of. -/
theorem text_injective (h : rt.PrintsHex) : Function.Injective (EdgeId.text rt) := by
  have hupper : ∀ id, ∀ c ∈ rt.str id, c.isUpper = false := fun _ _ => isUpper_of_mem_str h
  have hs : ∀ id, 's' ∉ rt.str id := h.notMem (by decide)
  have hmark : ∀ c ∈ "-supersedes-".toList, c.isUpper = false := forall_of_all (by decide)
  have hsupersedes : ∀ successor old, ∀ c ∈ (EdgeId.supersedes successor old).text rt,
      c.isUpper = false := by
    intro successor old c hc
    rcases List.mem_append.mp hc with hc | hc
    · rcases List.mem_append.mp hc with hc | hc
      · exact hupper _ c hc
      · exact hmark c hc
    · exact hupper _ c hc
  rintro (a | ⟨s, k, t⟩ | ⟨n, o⟩) (b | ⟨s', k', t'⟩ | ⟨n', o'⟩) heq
  · exact congrArg _ (rt.str_injective heq)
  · obtain ⟨c, hc, hup⟩ := exists_isUpper_unnamed rt s' k' t'
    rw [← heq] at hc
    exact absurd (hupper a c hc) (by rw [hup]; decide)
  · refine absurd ?_ (hs a)
    rw [show rt.str a = _ from heq]
    simp [EdgeId.text]
  · obtain ⟨c, hc, hup⟩ := exists_isUpper_unnamed rt s k t
    rw [heq] at hc
    exact absurd (hupper b c hc) (by rw [hup]; decide)
  · -- the kind starts with the first upper-case letter, and ends at the dash behind it
    have hdash : ∀ id, ∀ c ∈ rt.str id ++ ['-'], c.isUpper = false := fun id c hc =>
      (List.mem_append.mp hc).elim (hupper id c) fun hc => List.mem_singleton.mp hc ▸ rfl
    have hhead : ∀ (k : RelationKind) (t : Id), ∀ c ∈ (k.value ++ '-' :: rt.str t).head?,
        c.isUpper = true := by
      intro k t c hc
      obtain ⟨hkind, hne, -⟩ := value_head k
      rw [List.head?_append_of_ne_nil _ hne] at hc
      exact hkind c hc
    have heq : (rt.str s ++ ['-']) ++ (k.value ++ '-' :: rt.str t) =
        (rt.str s' ++ ['-']) ++ (k'.value ++ '-' :: rt.str t') := by
      simpa [EdgeId.text] using heq
    obtain ⟨hsource, hrest⟩ := append_inj_of_head (hdash s) (hdash s') (hhead k t) (hhead k' t') heq
    obtain ⟨hkind, htarget⟩ := append_cons_inj (value_head k).2.2 (value_head k').2.2 hrest
    rw [rt.str_injective (List.append_cancel_right hsource), RelationKind.value_injective hkind,
      rt.str_injective htarget]
  · obtain ⟨c, hc, hup⟩ := exists_isUpper_unnamed rt s k t
    rw [heq] at hc
    exact absurd (hsupersedes n' o' c hc) (by rw [hup]; decide)
  · refine absurd ?_ (hs b)
    rw [← show _ = rt.str b from heq]
    simp [EdgeId.text]
  · obtain ⟨c, hc, hup⟩ := exists_isUpper_unnamed rt s' k' t'
    rw [← heq] at hc
    exact absurd (hsupersedes n o c hc) (by rw [hup]; decide)
  · have hs' : ∀ id, 's' ∉ rt.str id ++ ['-'] := fun id hmem =>
      (List.mem_append.mp hmem).elim (hs id) (by decide)
    have heq : (rt.str n ++ ['-']) ++ 's' :: ("upersedes-".toList ++ rt.str o) =
        (rt.str n' ++ ['-']) ++ 's' :: ("upersedes-".toList ++ rt.str o') := by
      simpa [EdgeId.text] using heq
    obtain ⟨hn, ho⟩ := append_cons_inj (hs' n) (hs' n') heq
    rw [rt.str_injective (List.append_cancel_right hn),
      rt.str_injective (List.append_cancel_left ho)]

end text

namespace GraphInput

variable {rt : Runtime Id} {input : GraphInput Id H}

/-- The id of an explicit edge tells its ends, its kind and its role. -/
theorem explicitId_inj {s s' t t' : Id} {k k' : RelationKind} {role role' : Text}
    (h : input.explicitId rt s k t role = input.explicitId rt s' k' t' role') :
    s = s' ∧ k = k' ∧ t = t' ∧ role = role' := by
  obtain ⟨-, h₁⟩ := append_colon_inj (by decide) (by decide) (rt.uuid5_injective h)
  obtain ⟨-, h₂⟩ := append_colon_inj (rt.colon_notMem_str _) (rt.colon_notMem_str _) h₁
  obtain ⟨hs, h₃⟩ := append_colon_inj (rt.colon_notMem_str _) (rt.colon_notMem_str _) h₂
  obtain ⟨hk, h₄⟩ :=
    append_colon_inj (RelationKind.colon_notMem_value _) (RelationKind.colon_notMem_value _) h₃
  obtain ⟨ht, hrole⟩ := append_colon_inj (rt.colon_notMem_str _) (rt.colon_notMem_str _) h₄
  exact ⟨rt.str_injective hs, RelationKind.value_injective hk, rt.str_injective ht, hrole⟩

/-- The id of a link to a material tells the extracted node and the source. -/
theorem evidenceId_inj {x x' : Id} {source source' : Source Id H}
    (h : input.evidenceId rt x source = input.evidenceId rt x' source') :
    x = x' ∧ source.id = source'.id := by
  obtain ⟨-, h₁⟩ := append_colon_inj (by decide) (by decide) (rt.uuid5_injective h)
  obtain ⟨-, h₂⟩ := append_colon_inj (rt.colon_notMem_str _) (rt.colon_notMem_str _) h₁
  obtain ⟨hx, hsource⟩ := append_colon_inj (rt.colon_notMem_str _) (rt.colon_notMem_str _) h₂
  exact ⟨rt.str_injective hx, rt.str_injective hsource⟩

theorem explicitId_ne_evidenceId {s t x : Id} {k : RelationKind} {role : Text}
    {source : Source Id H} :
    input.explicitId rt s k t role ≠ input.evidenceId rt x source := fun h =>
  absurd (append_colon_inj (by decide) (by decide) (rt.uuid5_injective h)).1 (by decide)

/-- The node of a material tells its source. -/
theorem materialId_inj {source source' : Source Id H}
    (h : input.materialId rt source = input.materialId rt source') : source.id = source'.id :=
  rt.str_injective (List.append_cancel_left (entityId_inj h).2.2)

/-- The node of a material is not one that is made for a record. -/
theorem materialId_ne_entityId {source : Source Id H} {kind : RecordKind} {key : Text} :
    input.materialId rt source ≠ entityId rt input.workspaceId kind.entityKind key := by
  intro h
  have hkind := (entityId_inj h).2.1
  revert hkind
  unfold materialKind
  cases source.kind <;> cases kind <;> exact nofun

end GraphInput

end KnowledgeGraph

end Maeglagi
