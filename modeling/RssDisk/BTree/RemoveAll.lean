import RssDisk.BTree.Match
import RssDisk.Reference

/-!
# Removal of a character

The loop of `removeAll` erases a character and then goes to the next position, where by then the
character behind the erased one stands. Of a run of the character every second one stays. The text
of a date value has two adjacent quotes at its end when the value is empty or ends with a quote.
-/

namespace RssDisk.BTree

open List Json

/-- The loop of `basefunc_std::removeAll` from a position on. -/
def removeAllFrom (search : UInt8) (s : Bytes) (pos : Nat) : Bytes :=
  match found : (s.drop pos).idxOf? search with
  | none => s
  | some i => removeAllFrom search (s.eraseIdx (pos + i)) (pos + i + 1)
termination_by s.length - pos
decreasing_by
  have inside := (idxOf?_eq_some_iff.mp found).1
  rw [length_drop] at inside
  rw [length_eraseIdx]
  split <;> omega

variable {c : UInt8} {s : Bytes} {pos : Nat}

theorem removeAllFrom_of_none (found : (s.drop pos).idxOf? c = none) :
    removeAllFrom c s pos = s := by
  rw [removeAllFrom]
  split <;> simp_all

theorem removeAllFrom_of_some {i : Nat} (found : (s.drop pos).idxOf? c = some i) :
    removeAllFrom c s pos = removeAllFrom c (s.eraseIdx (pos + i)) (pos + i + 1) := by
  rw [removeAllFrom]
  split <;> simp_all

theorem removeAllFrom_pass {a : UInt8} (other : a ≠ c) (done rest : Bytes) :
    removeAllFrom c (done ++ a :: rest) done.length =
      removeAllFrom c (done ++ a :: rest) (done.length + 1) := by
  have behind : (done ++ a :: rest).drop (done.length + 1) = rest := by simp
  cases found : rest.idxOf? c with
  | none =>
    rw [removeAllFrom_of_none (by simp [idxOf?_cons, other, found]),
      removeAllFrom_of_none (by rw [behind, found])]
  | some i =>
    have here : ((done ++ a :: rest).drop done.length).idxOf? c = some (i + 1) := by
      simp [idxOf?_cons, other, found]
    rw [removeAllFrom_of_some here, removeAllFrom_of_some ((congrArg _ behind).trans found),
      Nat.add_right_comm done.length 1 i]
    rfl

theorem removeAllFrom_eq (c : UInt8) (done rest : Bytes) :
    removeAllFrom c (done ++ rest) done.length = done ++ removeAll c rest := by
  fun_induction removeAll c rest generalizing done with
  | case1 => exact removeAllFrom_of_none (by simp)
  | case2 =>
    have erased : (done ++ [c]).eraseIdx done.length = done := by
      simp [eraseIdx_append_of_length_le]
    rw [removeAllFrom_of_some (i := 0) (by simp [idxOf?_cons]), Nat.add_zero, erased,
      removeAllFrom_of_none (by rw [drop_of_length_le (Nat.le_succ _)]; rfl), append_nil]
  | case3 b rest ih =>
    rw [removeAllFrom_of_some (i := 0) (by simp [idxOf?_cons])]
    have next := ih (done ++ [b])
    simpa [eraseIdx_append_of_length_le] using next
  | case4 a rest other ih =>
    have next := ih (done ++ [a])
    rw [removeAllFrom_pass other]
    simpa using next

theorem removeAllFrom_zero (c : UInt8) (text : Bytes) :
    removeAllFrom c text 0 = removeAll c text := removeAllFrom_eq c [] text

theorem mem_removeAll_iff (c : UInt8) (text : Bytes) :
    c ∈ removeAll c text ↔ [c, c] <:+: text := by
  fun_induction removeAll c text with
  | case1 => simp
  | case2 => simp [infix_cons_iff]
  | case3 b rest ih =>
    rw [mem_cons, ih, infix_cons_iff, infix_cons_iff, cons_prefix_cons,
      cons_prefix_cons, cons_prefix_cons]
    constructor <;> simp <;> tauto
  | case4 a rest other ih =>
    rw [mem_cons, ih, infix_cons_iff, cons_prefix_cons]
    simp [Ne.symm other]

theorem filter_removeAll (c : UInt8) (text : Bytes) :
    (removeAll c text).filter (· ≠ c) = text.filter (· ≠ c) := by
  fun_induction removeAll c text with
  | case1 => rfl
  | case2 => simp
  | case3 b rest ih =>
    rw [filter_cons, ih, filter_cons_of_neg (by simp), filter_cons]
  | case4 a rest other ih => rw [filter_cons, ih, filter_cons]

theorem not_mem_escape {d : UInt8} (other : d ≠ 34) : 34 ∉ escape d := by
  have low : ∀ n < 32, 34 ∉ escape (UInt8.ofNat n) := by decide
  by_cases small : d.toNat < 32
  · grind [UInt8.ofNat_toNat]
  · have large : ¬ d < 32 := small
    have kept : 34 ∉ [d] := by simpa using Ne.symm other
    simp only [escape, if_neg other, if_neg large]
    split_ifs <;> first | exact kept | decide

theorem escape_head (d : UInt8) : ∃ a front, escape d = a :: front ∧ a ≠ 34 := by
  by_cases quote : d = 34
  · subst quote
    exact ⟨92, [34], rfl, by decide⟩
  · have absent := not_mem_escape quote
    cases text : escape d with
    | nil =>
      unfold escape at text
      split_ifs at text
    | cons a front =>
      rw [text] at absent
      exact ⟨a, front, rfl, fun same => absent (same ▸ mem_cons_self)⟩

theorem infix_append_iff {front : Bytes} (absent : c ∉ front) (rest : Bytes) :
    [c, c] <:+: front ++ rest ↔ [c, c] <:+: rest := by
  induction front with
  | nil => rfl
  | cons a front ih =>
    have other : c ≠ a := ne_of_not_mem_cons absent
    rw [cons_append, infix_cons_iff, cons_prefix_cons,
      ih (not_mem_of_not_mem_cons absent)]
    simp [other]

theorem infix_quote_iff (value : Bytes) :
    [34, 34] <:+: 34 :: (value.flatMap escape ++ [34]) ↔
      value = [] ∨ [34, 34] <:+: value.flatMap escape ++ [34] := by
  rw [infix_cons_iff, cons_prefix_cons]
  cases value with
  | nil => simp
  | cons d value =>
    obtain ⟨a, front, text, other⟩ := escape_head d
    simp [text, cons_prefix_cons, Ne.symm other]

theorem infix_escaped_iff (value : Bytes) :
    [34, 34] <:+: value.flatMap escape ++ [34] ↔ value.getLast? = some 34 := by
  induction value with
  | nil => simp [infix_cons_iff]
  | cons d value ih =>
    have last : (d :: value).getLast? = some 34 ↔
        value = [] ∧ d = 34 ∨ value.getLast? = some 34 := by
      cases value <;> simp [getLast?_cons_cons]
    rw [flatMap_cons, append_assoc, last, ← ih]
    by_cases quote : d = 34
    · subst quote
      rw [show escape 34 = [92] ++ [34] from rfl, append_assoc,
        infix_append_iff (by decide), singleton_append, infix_quote_iff]
      simp
    · rw [infix_append_iff (not_mem_escape quote)]
      simp [quote]

/-- The result has every character but the removed one exactly when no two of these are adjacent,
and for the text of a date value no quote is left exactly when the value ends with another
character. -/
theorem removeAll_exact_iff (c : UInt8) (text : Bytes) (env : Env) (value : Bytes) :
    (removeAllFrom c text 0 = text.filter (· ≠ c) ↔ ¬ [c, c] <:+: text) ∧
      (34 ∉ removeAllFrom 34 (env.text (.string value)) 0 ↔ ∃ d ∈ value.getLast?, d ≠ 34) := by
  constructor
  · rw [removeAllFrom_zero, ← mem_removeAll_iff]
    constructor
    · intro same
      rw [same]
      simp
    · intro absent
      grind [filter_removeAll, filter_eq_self.mpr]
  · rw [removeAllFrom_zero, mem_removeAll_iff, Env.text, Json.toString, Json.quote,
      cons_append, infix_quote_iff, infix_escaped_iff, ← getLast?_eq_none_iff]
    cases value.getLast? <;> simp

/-- The printed text of the empty string is two quotes, and one of them stays. -/
theorem removeAll_leaves_quote :
    removeAllFrom 34 (Reference.env.text (.string [])) 0 = [34] := by
  rw [removeAllFrom_zero]
  rfl

end RssDisk.BTree
