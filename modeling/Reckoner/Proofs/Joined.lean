import Mathlib

/-!
# Joined Texts

Texts with a separator between them: the joined text has the characters of the texts and of the
separator, and is at least as long as each of the texts.
-/

namespace Reckoner

variable {sep : String} {ss : List String}

/-- What holds of the characters of the texts and of the separator holds of those of the joined
text. -/
theorem forall_mem_intercalate {p : Char → Prop} (hsep : ∀ c ∈ sep.toList, p c)
    (hss : ∀ s ∈ ss, ∀ c ∈ s.toList, p c) : ∀ c ∈ (sep.intercalate ss).toList, p c := by
  induction ss with
  | nil => exact List.forall_mem_nil _
  | cons s ss ih =>
    obtain ⟨hs, hss⟩ := List.forall_mem_cons.1 hss
    cases ss with
    | nil => rwa [String.intercalate_singleton]
    | cons t ss =>
      rw [String.intercalate_cons_cons, String.toList_append, String.toList_append]
      exact List.forall_mem_append.2 ⟨List.forall_mem_append.2 ⟨hs, hsep⟩, ih hss⟩

/-- A joined text is at least as long as each of its texts. -/
theorem length_le_intercalate {s : String} (hs : s ∈ ss) :
    s.length ≤ (sep.intercalate ss).length := by
  induction ss with
  | nil => cases hs
  | cons t ss ih =>
    cases ss with
    | nil => rw [List.mem_singleton.1 hs, String.intercalate_singleton]
    | cons u ss =>
      rw [String.intercalate_cons_cons, String.length_append, String.length_append]
      rcases List.mem_cons.1 hs with rfl | hs
      · omega
      · have := ih hs
        omega

/-- A joined text is at least as long as the number of its texts, if none of them is empty. -/
theorem length_le_length_intercalate (hss : ∀ s ∈ ss, 0 < s.length) :
    ss.length ≤ (sep.intercalate ss).length := by
  induction ss with
  | nil => exact Nat.zero_le _
  | cons t ss ih =>
    obtain ⟨ht, hss⟩ := List.forall_mem_cons.1 hss
    cases ss with
    | nil =>
      rw [String.intercalate_singleton, List.length_singleton]
      exact ht
    | cons u ss =>
      have := ih hss
      rw [String.intercalate_cons_cons, String.length_append, String.length_append,
        List.length_cons]
      omega

end Reckoner
