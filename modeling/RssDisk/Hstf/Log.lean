import RssDisk.Hstf.Oplog
import RssDisk.Lib.Fixed
import RssDisk.Lib.Reach

/-!
# What the log keeps

The writes of a server are numbered from one. The log keeps the records of the last ones, whatever
happens: new records come at the end, `clear` drops records from the front but never the last one,
and a restart finds the number of the last record in the file. A client that asks with its number
gets the records behind it that are still kept.
-/

namespace RssDisk.Hstf

open Lib Bitbase List

/-- Entries with their numbers, from a first one on. -/
def numbered : Nat → List Entry → List (Nat × Entry)
  | _, [] => []
  | first, e :: entries => (first, e) :: numbered (first + 1) entries

variable {first : Nat} {entries : List Entry}

@[simp]
theorem numbered_length (first : Nat) (entries : List Entry) :
    (numbered first entries).length = entries.length := by
  induction entries generalizing first with
  | nil => rfl
  | cons e entries ih => simp [numbered, ih]

theorem numbered_append (first : Nat) (left right : List Entry) :
    numbered first (left ++ right) =
      numbered first left ++ numbered (first + left.length) right := by
  induction left generalizing first with
  | nil => simp [numbered]
  | cons e left ih =>
    rw [cons_append, numbered, ih, numbered, cons_append, length_cons]
    congr 3
    omega

theorem drop_numbered (first : Nat) (entries : List Entry) (count : Nat) :
    (numbered first entries).drop count = numbered (first + count) (entries.drop count) := by
  induction count generalizing first entries with
  | zero => rfl
  | succ count ih =>
    cases entries with
    | nil => rfl
    | cons e entries =>
      rw [numbered, drop_succ_cons, drop_succ_cons, ih]
      congr 1
      omega

theorem take_numbered (first : Nat) (entries : List Entry) (count : Nat) :
    (numbered first entries).take count = numbered first (entries.take count) := by
  induction count generalizing first entries with
  | zero => rfl
  | succ count ih =>
    cases entries with
    | nil => rfl
    | cons e entries => rw [numbered, take_succ_cons, take_succ_cons, numbered, ih]

theorem mem_numbered {item : Nat × Entry} (present : item ∈ numbered first entries) :
    first ≤ item.1 ∧ item.1 < first + entries.length ∧ item.2 ∈ entries := by
  induction entries generalizing first with
  | nil => cases present
  | cons e entries ih =>
    rw [length_cons]
    rcases mem_cons.mp present with rfl | later
    · exact ⟨le_refl first, by omega, mem_cons_self⟩
    · grind

theorem numbered_numbers (first : Nat) (entries : List Entry) :
    (numbered first entries).map Prod.fst = List.range' first entries.length := by
  induction entries generalizing first with
  | nil => rfl
  | cons e entries ih => rw [numbered, map_cons, ih, length_cons, range'_succ]

theorem numbered_pairwise (first : Nat) (entries : List Entry) :
    ((numbered first entries).map Prod.fst).Pairwise (· < ·) := by
  rw [numbered_numbers]
  exact pairwise_lt_range'

theorem filter_numbered (first cursor : Nat) (entries : List Entry) :
    (numbered first entries).filter (fun item => cursor < item.1) =
      (numbered first entries).drop (cursor + 1 - first) := by
  induction entries generalizing first with
  | nil => simp [numbered]
  | cons e entries ih =>
    by_cases above : cursor < first
    · have all : ∀ item ∈ numbered first (e :: entries), decide (cursor < item.1) = true := by
        intro item present
        have low := (mem_numbered present).1
        grind
      rw [filter_eq_self.mpr all, show cursor + 1 - first = 0 by omega, drop_zero]
    · rw [numbered, filter_cons_of_neg (by simpa using above), ih,
        show cursor + 1 - first = (cursor + 1 - (first + 1)) + 1 by omega, drop_succ_cons]

/-- A name that fits into a record: at most 64 bytes, none of them zero. -/
def Entry.Fits (e : Entry) : Prop := e.name.length ≤ 64 ∧ 0 ∉ e.name

instance (e : Entry) : Decidable e.Fits := inferInstanceAs (Decidable (_ ∧ _))

/-- The record of a numbered entry. -/
def encode (item : Nat × Entry) : Bytes := record (UInt64.ofNat item.1) item.2

/-- The number and the entry of a record. -/
def decode (v : Bytes) : Nat × Entry := ((charsToU64 (v.take 8)).toNat, parse v)

theorem record_length (p : UInt64) (e : Entry) : (record p e).length = ssgmt := by
  rw [record]
  split
  · grind
  · rename_i short
    rw [length_append, length_replicate]
    omega

theorem encode_length (item : Nat × Entry) : (encode item).length = ssgmt := record_length _ _

theorem encode_number (item : Nat × Entry) :
    (encode item).take 8 = u64ToChars (UInt64.ofNat item.1) := by
  rw [encode, record]
  split
  · rw [take_take, Nat.min_eq_left (by decide), take_left' (by simp)]
  · rw [append_assoc, take_left' (by simp)]

theorem decode_encode {item : Nat × Entry} (fits : item.2.Fits) (small : item.1 < 2 ^ 64) :
    decode (encode item) = item := by
  obtain ⟨n, name, tms, crc32⟩ := item
  obtain ⟨short, plain⟩ := fits
  dsimp only at short plain small
  have whole : encode (n, ⟨name, tms, crc32⟩) = u64ToChars (UInt64.ofNat n) ++ (i64ToChars tms ++
      (i64ToChars crc32 ++ (name ++ List.replicate (64 - name.length) 0))) := by
    have room : ¬ ssgmt < (u64ToChars (UInt64.ofNat n) ++
        (i64ToChars tms ++ (i64ToChars crc32 ++ name))).length := by
      simp only [length_append, u64ToChars_length, i64ToChars_length, ssgmt]
      omega
    rw [encode, record, if_neg room]
    simp only [append_assoc, length_append, u64ToChars_length, i64ToChars_length, ssgmt]
    congr 5
    omega
  have number : (charsToU64 ((encode (n, ⟨name, tms, crc32⟩)).take 8)).toNat = n := by
    rw [encode_number, charsToU64_u64ToChars, UInt64.toNat_ofNat_of_lt' small]
  have time : ((encode (n, ⟨name, tms, crc32⟩)).drop 8).take 8 = i64ToChars tms := by
    rw [whole, drop_left' (by simp), take_left' (by simp)]
  have check : ((encode (n, ⟨name, tms, crc32⟩)).drop 16).take 8 = i64ToChars crc32 := by
    rw [whole, ← append_assoc, drop_left' (by simp), take_left' (by simp)]
  have text : cStr ((encode (n, ⟨name, tms, crc32⟩)).drop 24) = name := by
    have rest : (encode (n, ⟨name, tms, crc32⟩)).drop 24 =
        name ++ List.replicate (64 - name.length) 0 := by
      rw [whole, ← append_assoc, ← append_assoc, drop_left' (by simp)]
    rw [rest, cStr, takeWhile_append_of_pos (fun c present => by
      simpa using fun zero : c = 0 => plain (zero ▸ present))]
    cases 64 - name.length with
    | zero => simp
    | succ count => simp [replicate_succ]
  rw [decode, number, parse, time, check, text, charsToI64_i64ToChars, charsToI64_i64ToChars]

/-- The whole records of a content. -/
def recordsOf (content : Bytes) : List Bytes :=
  (List.range (content.length / ssgmt)).map (fun el => (content.drop (el * ssgmt)).take ssgmt)

/-- The numbers and entries that a content keeps. -/
def retained (content : Bytes) : List (Nat × Entry) := (recordsOf content).map decode

theorem recordsOf_flatMap (items : List (Nat × Entry)) :
    recordsOf (items.flatMap encode) = items.map encode := by
  rw [recordsOf, flatMap_length_fixed encode_length, Nat.mul_div_cancel_left _ (by decide)]
  refine ext_getElem (by simp) (fun el low high => ?_)
  rw [length_map] at high
  rw [getElem_map, getElem_range, getElem_map, drop_flatMap_fixed encode_length,
    drop_eq_getElem_cons high, flatMap_cons, take_left' (encode_length _)]

theorem init_numbered (oplogSizeBytes : Int64) (first : Nat) {entries : List Entry}
    (filled : entries ≠ []) :
    init oplogSizeBytes (some ((numbered first entries).flatMap encode)) = {
      size := sizeOf oplogSizeBytes
      content := (numbered first entries).flatMap encode
      p := UInt64.ofNat (first + (entries.length - 1))
      file := some ((numbered first entries).flatMap encode) } := by
  have length := flatMap_length_fixed encode_length (numbered first entries)
  have whole : (numbered first entries).flatMap encode =
      (numbered first entries.dropLast).flatMap encode ++
        encode (first + (entries.length - 1), entries.getLast filled) := by
    conv_lhs => rw [← dropLast_append_getLast filled]
    simp [numbered_append, numbered]
  have content : (numbered first entries).flatMap encode ≠ [] := by
    rw [whole]
    simp [← length_eq_zero_iff, encode_length, ssgmt]
  have last : ((numbered first entries).flatMap encode).drop
      (((numbered first entries).flatMap encode).length - ssgmt) =
        encode (first + (entries.length - 1), entries.getLast filled) := by
    rw [whole, length_append, encode_length, Nat.add_sub_cancel, drop_left]
  simp only [init]
  rw [if_neg (by rw [length]; simp), if_pos content, last, encode_number, charsToU64_u64ToChars]

theorem retained_flatMap {items : List (Nat × Entry)} (fits : ∀ item ∈ items, item.2.Fits)
    (small : ∀ item ∈ items, item.1 < 2 ^ 64) : retained (items.flatMap encode) = items := by
  rw [retained, recordsOf_flatMap, map_map]
  conv_rhs => rw [← map_id items]
  exact map_congr_left (fun item present => decode_encode (fits item present)
    (small item present))

/-- How many records have their places below 2 GiB. -/
def recordLimit : Nat := 24403223

theorem records_eq (d : Bytes) {el : Nat} (fuel : Nat) (low : el ≤ recordLimit)
    (enough : d.length < ssgmt * (el + fuel + 1)) :
    records d el fuel = ((recordsOf d).drop el).take (recordLimit - el) := by
  have count : (recordsOf d).length = d.length / ssgmt := by simp [recordsOf]
  have past : ∀ el, d.length < ssgmt * (el + 1) → (recordsOf d).drop el = [] := by
    intro el short
    rw [Nat.mul_comm] at short
    rw [drop_eq_nil_iff, count]
    exact Nat.le_of_lt_succ ((Nat.div_lt_iff_lt_mul (by decide)).mpr short)
  induction fuel generalizing el with
  | zero => rw [records, past el enough, take_nil]
  | succ fuel ih =>
    rw [records]
    by_cases last : el = recordLimit
    · have negative : ¬ (0 ≤ toInt32 (ssgmt * (el + 1) : Nat) ∧
          toInt32 (ssgmt * (el + 1) : Nat) ≤ d.length) := by
        rw [last]
        exact fun both => absurd both.1 (by decide)
      rw [if_neg negative, last, Nat.sub_self, take_zero]
    · have exact : toInt32 (ssgmt * (el + 1) : Nat) = (ssgmt * (el + 1) : Nat) := by
        simp only [recordLimit, ssgmt] at low last ⊢
        exact toInt32_eq (by omega) (by omega)
      rw [exact]
      by_cases next : ssgmt * (el + 1) ≤ d.length
      · have here : el < (recordsOf d).length := by
          rw [count, Nat.lt_iff_add_one_le, Nat.le_div_iff_mul_le (by decide), Nat.mul_comm]
          exact next
        have value : (recordsOf d)[el] = (d.drop (ssgmt * el)).take ssgmt := by
          simp [recordsOf, Nat.mul_comm]
        have left : recordLimit - el = (recordLimit - (el + 1)) + 1 := by omega
        rw [if_pos ⟨by omega, by omega⟩, drop_eq_getElem_cons here, value, left,
          take_succ_cons, ih (by omega) (by simp only [ssgmt] at enough ⊢; omega)]
      · rw [if_neg (by omega), past el (by omega), take_nil]

end RssDisk.Hstf
