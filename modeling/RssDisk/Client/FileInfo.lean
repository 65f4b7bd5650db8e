import RssDisk.Client.Command
import RssDisk.DateTime.Texts

/-!
# What a header tells

A client learns the type, the time, the sum, the date and the number of days of a file in two ways:
`fetch_content` takes them from the whole file, and `command` takes them from the header that
`read_file_info` cuts off. Both narrow the number of days to 16 bits. `read_file_info` and `command`
have no layout for files that are appended to: they look for the date eight bytes too early, so that
the hour of the write is taken for the number of days.
-/

namespace RssDisk.Client

open Lib Bitbase Server List Option BasefuncStd DateTime

theorem ttlEnd_le {content : Bytes} {l p : Nat} (after : l ≤ p) (space : content.getD p 0 = 32)
    (n : Nat) : ttlEnd content n l ≤ p := by
  induction n generalizing l with
  | zero => exact after
  | succ n ih =>
    rw [ttlEnd]
    split
    · exact after
    · rename_i other
      have moved : l ≠ p := fun same => other (same ▸ space)
      exact ih (by omega)

theorem le_ttlEnd {content : Bytes} {l p n : Nat} (near : p ≤ l + n)
    (others : ∀ q, l ≤ q → q < p → content.getD q 0 ≠ 32) : p ≤ ttlEnd content n l := by
  induction n generalizing l with
  | zero => exact near
  | succ n ih =>
    rw [ttlEnd]
    split
    · rename_i space
      by_contra below
      exact others l (le_refl l) (by omega) space
    · exact ih (by omega) (fun q low high => others q (by omega) high)

def storedTypes : List WType :=
  [.insertOnly, .insertOnlyWithoutCompress, .updatable, .updatableWithoutCompress, .jdb, .ajdb,
    .appendable]

theorem getD_append_add (before rest : Bytes) (k : Nat) :
    (before ++ rest).getD (before.length + k) 0 = rest.getD k 0 := by
  rw [getD_eq_getElem?_getD, getElem?_append_right (by omega), Nat.add_sub_cancel_left,
    getD_eq_getElem?_getD]

theorem Stored.text_take (f : Stored) (days : f.days.length ≤ 9) : ∃ rest,
    f.text.take 64 = (f.type.digits ++ f.raw ++ f.date) ++ (f.days ++ 32 :: rest) ∧
      (f.type.digits ++ f.raw ++ f.date).length = 21 + rawSize f.type := by
  have size : (f.type.digits ++ f.raw ++ f.date).length = 21 + rawSize f.type := by
    simp only [length_append, length_digits f.named.2, f.raw_length, f.date_length]
    omega
  have short : rawSize f.type ≤ 16 := by
    cases f.type <;> decide
  obtain ⟨k, room⟩ : ∃ k, 64 - (21 + rawSize f.type) - f.days.length = k + 1 :=
    ⟨63 - (21 + rawSize f.type) - f.days.length, by omega⟩
  refine ⟨f.body.take k, ?_, size⟩
  rw [Stored.text, take_append, take_of_length_le (by omega), take_append,
    take_of_length_le (by omega), size, room, take_succ_cons]

theorem infoHeader_eq {content : Bytes} {type : WType} (stored : type ∈ storedTypes)
    (typed : content.take 2 = type.digits) : infoHeader content =
      let last := ttlEnd content 10 (if rawSize type = 16 then 38 else 22)
      if last < content.length then content.take last else content.take 18 := by
  simp only [storedTypes, mem_cons, not_mem_nil, or_false] at stored
  rcases stored with rfl | rfl | rfl | rfl | rfl | rfl | rfl <;> rw [infoHeader, typed] <;> rfl

theorem fileInfoOf_text {f : Stored} (days : f.days.length ≤ 9) (stored : f.type ∈ storedTypes)
    (whole : f.type ≠ .appendable) : fileInfoOf (infoHeader (f.text.take 64)) = f.info := by
  obtain ⟨rest, text, size⟩ := f.text_take days
  have positive := length_pos_iff.mpr f.days_some
  have start : (if rawSize f.type = 16 then 38 else 22) = 22 + rawSize f.type := by
    revert stored whole
    cases f.type <;> decide
  -- the first space behind the date ends the number of days
  have ends : ttlEnd (f.text.take 64) 10 (22 + rawSize f.type) =
      21 + rawSize f.type + f.days.length := by
    rw [text, ← size]
    apply Nat.le_antisymm
    · apply ttlEnd_le (by omega)
      rw [getD_append_add, getD_eq_getElem?_getD, getElem?_append_right (le_refl _),
        Nat.sub_self]
      rfl
    · refine le_ttlEnd (by omega) (fun q low high space => ?_)
      obtain ⟨k, rfl⟩ : ∃ k, q = (f.type.digits ++ f.raw ++ f.date).length + k :=
        ⟨q - (f.type.digits ++ f.raw ++ f.date).length, by omega⟩
      have inside : k < f.days.length := by omega
      rw [getD_append_add, getD_eq_getElem?_getD, getElem?_append_left inside,
        getElem?_eq_getElem inside] at space
      exact f.days_space (space ▸ getElem_mem inside)
  have last : 21 + rawSize f.type + f.days.length < (f.text.take 64).length := by
    rw [text, length_append, size, length_append, length_cons]
    omega
  have typed : (f.text.take 64).take 2 = f.type.digits :=
    (f.fields [] (f.days ++ 32 :: rest) text).1
  have header : infoHeader (f.text.take 64) = f.type.digits ++ f.raw ++ f.date ++ f.days := by
    rw [infoHeader_eq stored typed, start, ends, if_pos last, text, ← append_assoc]
    exact take_left' (by rw [length_append, size])
  have long : (f.type.digits ++ f.raw ++ f.date ++ f.days).length =
      21 + rawSize f.type + f.days.length := by
    rw [length_append, size]
  obtain ⟨typed, timed, summed, dated, tail⟩ := f.fields [] f.days rfl
  rw [header, Stored.info]
  have isType := WType.ofText_digits f.type f.named.2
  simp only [nil_append, length_nil, Nat.zero_add, drop_zero]
    at typed timed summed dated tail
  generalize f.type.digits ++ f.raw ++ f.date ++ f.days = text at typed timed summed dated tail long
  generalize f.type = type at typed timed summed dated tail isType long stored whole ⊢
  simp only [storedTypes, mem_cons, not_mem_nil, or_false] at stored
  rcases stored with rfl | rfl | rfl | rfl | rfl | rfl | rfl
  case inr.inr.inr.inr.inr.inr => exact absurd rfl whole
  all_goals
    simp only [rawSize, Nat.reduceAdd, Nat.reduceLeDiff, Nat.reduceEqDiff, forall_const,
      Nat.add_zero] at timed summed dated tail long ⊢
    simp (disch := omega) only [fileInfoOf, if_pos, typed, isType, timed, summed, dated, tail,
      ↓reduceIte]

/-- In the header of a file that is appended to, the date is looked for eight bytes before it, and
the hour of the write is taken for the number of days. -/
theorem fileInfoOf_appended {f : Stored} (days : f.days.length ≤ 9)
    (appended : f.type = .appendable) {dt : DateTime} (calendar : dt.IsCalendar) (dated : f.date = getDateTime dt) :
    fileInfoOf (infoHeader (f.text.take 64)) =
      { fileType := .appendable
        fileCreated := parseDateTime (f.raw ++ f.date.take 11)
        ttlDays := dt.time.hour } := by
  obtain ⟨rest, text, -⟩ := f.text_take days
  have raw : f.raw.length = 8 := by rw [f.raw_length, appended]; rfl
  have hour := calendar.2.2.2.1
  rw [getDateTime_eq calendar, timeText] at dated
  obtain ⟨a, b, digits⟩ := length_eq_two.mp (padded_length 2 dt.time.hour.toNat)
  have isDigits := padded_isDigit 2 dt.time.hour.toNat
  have value := digitsValue_padded 2 dt.time.hour.toNat (by omega)
  rw [digits] at dated isDigits value
  have ten : (dateText dt.date).length = 10 := by
    simp [dateText, padded_length]
  have five : (padded 2 dt.time.minute.toNat ++
      58 :: padded 2 dt.time.second.toNat).length = 5 := by
    simp [padded_length]
  generalize dateText dt.date = date at dated ten
  generalize padded 2 dt.time.minute.toNat ++ 58 :: padded 2 dt.time.second.toNat
    = minutes at dated five
  have parts : f.text.take 64 = (WType.appendable.digits ++ (f.raw ++ (date ++ [32]))) ++
      (a :: b :: 58 :: (minutes ++ (f.days ++ 32 :: rest))) := by
    rw [text, dated, appended]
    simp only [append_assoc, cons_append, nil_append]
  have front : (WType.appendable.digits ++ (f.raw ++ (date ++ [32]))).length = 21 := by
    simp only [length_append, raw, ten]
    rfl
  have size : (f.text.take 64).length = 30 + f.days.length + rest.length := by
    rw [parts, length_append, front]
    simp only [length_cons, length_append, five]
    omega
  have typed : (f.text.take 64).take 2 = WType.appendable.digits := by
    rw [parts, append_assoc]
    rfl
  -- the scan starts at the second digit of the hour, and meets a space behind the days at latest
  have late : 24 ≤ ttlEnd (f.text.take 64) 10 22 := by
    refine le_ttlEnd (by omega) (fun q low high => ?_)
    obtain ⟨k, rfl⟩ : ∃ k, q = (WType.appendable.digits ++ (f.raw ++ (date ++ [32]))).length + k :=
      ⟨q - 21, by omega⟩
    rw [parts, getD_append_add]
    rcases (by omega : k = 1 ∨ k = 2) with rfl | rfl
    · rintro rfl
      exact absurd (isDigits 32 (by simp)) (by decide)
    · exact (by decide : (58 : UInt8) ≠ 32)
  have early : ttlEnd (f.text.take 64) 10 22 ≤ 29 + f.days.length := by
    apply ttlEnd_le (by omega)
    have whole : (f.type.digits ++ f.raw ++ f.date ++ f.days).length = 29 + f.days.length := by
      simp only [length_append, length_digits f.named.2, raw, f.date_length]
    rw [text, ← append_assoc, ← whole]
    exact getD_append_add _ (32 :: rest) 0
  obtain ⟨k, last⟩ : ∃ k, ttlEnd (f.text.take 64) 10 22 = 21 + (k + 3) :=
    ⟨ttlEnd (f.text.take 64) 10 22 - 24, by omega⟩
  have header : infoHeader (f.text.take 64) =
      (WType.appendable.digits ++ (f.raw ++ (date ++ [32]))) ++
        (a :: b :: 58 :: (minutes ++ (f.days ++ 32 :: rest)).take k) := by
    have start : (if rawSize .appendable = 16 then 38 else 22) = 22 := rfl
    rw [infoHeader_eq (by decide) typed, start]
    rw [if_pos (by omega), last, parts, ← front, take_length_add_append]
    rfl
  have created : ((infoHeader (f.text.take 64)).drop 2).take 19 = f.raw ++ f.date.take 11 := by
    have eleven : f.date.take 11 = date ++ [32] := by
      rw [dated, append_cons]
      exact take_left' (by rw [length_append, ten]; rfl)
    have two : WType.appendable.digits.length = 2 := rfl
    rw [header, eleven, append_assoc, drop_left' two]
    exact take_left' (by simp [raw, ten])
  have tail : (infoHeader (f.text.take 64)).drop 21 =
      [a, b] ++ 58 :: (minutes ++ (f.days ++ 32 :: rest)).take k := by
    rw [header]
    exact drop_left' front
  have read : stoi ((infoHeader (f.text.take 64)).drop 21) = some dt.time.hour := by
    have whole : ((dt.time.hour.toNat : Nat) : Int) = dt.time.hour := Int.toNat_of_nonneg hour.1
    rw [tail, stoi, strtol_digits (by simp) isDigits
      (head_not_digit (by decide) _), value, whole]
    exact if_pos (by omega)
  have long : 24 ≤ (infoHeader (f.text.take 64)).length := by
    rw [header, length_append, front]
    simp only [length_cons]
    omega
  have typed : (infoHeader (f.text.take 64)).take 2 = WType.appendable.digits := by
    rw [header, append_assoc]
    rfl
  have isType := WType.ofText_digits .appendable (by decide)
  have narrow : toInt16 dt.time.hour = dt.time.hour := by
    rw [toInt16]
    omega
  simp (disch := omega) only [fileInfoOf, if_pos, typed, isType, created, read, map_some,
    getD_some, narrow]

theorem fileInfoOf_range (text : Bytes) :
    -2 ^ 15 ≤ (fileInfoOf text).ttlDays ∧ (fileInfoOf text).ttlDays < 2 ^ 15 := by
  have narrowed : ∀ read : Option Int,
      -2 ^ 15 ≤ (read.map toInt16).getD (-1) ∧ (read.map toInt16).getD (-1) < 2 ^ 15 := by
    rintro (_ | n)
    · decide
    · simp only [map_some, getD_some, toInt16]
      omega
  unfold fileInfoOf
  dsimp only
  repeat' split
  all_goals first | exact narrowed _ | exact narrowed none

theorem charsToI64_zero {c : UInt8} {rest : Bytes} (zero : charsToI64 (c :: rest) = 0)
    (eight : (c :: rest).length = 8) : c = 0 := by
  have bound : ∀ t : Bytes, charsToNumeric t < 256 ^ t.length := by
    intro t
    induction t with
    | nil => decide
    | cons c t ih =>
      have byte : c.toNat ≤ 255 := Nat.le_of_lt_succ c.toNat_lt
      have scaled := Nat.mul_le_mul_right (256 ^ t.length) byte
      have scale : (2 : Nat) ^ (8 * t.length) = 256 ^ t.length := Nat.pow_mul 2 8 t.length
      rw [charsToNumeric, Nat.shiftLeft_eq, scale, length_cons, Nat.pow_succ]
      omega
  have seven : rest.length = 7 := by simpa using eight
  have small := bound rest
  have whole : charsToNumeric (c :: rest) % 2 ^ 64 = 0 := by
    have image : _ = (0 : Int64).toUInt64.toNat := congrArg (fun n => n.toUInt64.toNat) zero
    rw [show (0 : Int64).toUInt64.toNat = 0 from rfl] at image
    simpa [charsToI64] using image
  rw [charsToNumeric, Nat.shiftLeft_eq, seven] at whole
  rw [seven] at small
  have byte := c.toNat_lt
  have none : c.toNat = 0 := by omega
  exact UInt8.toNat_inj.mp none

/-- The type in the header of the file that a request writes. -/
def headerType (r : Request) : WType := WType.ofText (r.headers.1.headD [])

theorem headersOf_cases (type : WType) (flags : Bytes) : (headersOf type flags).1 = [] ∨
    ∃ stored ∈ storedTypes, ∃ raw, (headersOf type flags).1 = stored.digits :: raw ∧
      raw.flatten.length = rawSize stored := by
  cases type with
  | updatable | updatableWithoutCompress | jdb | ajdb | jdbFormed =>
    by_cases long : flags.length = 18
    · rw [headersOf, if_pos long]
      exact .inr ⟨_, by decide, _, rfl, by simp [long, rawSize]⟩
    · exact .inl (by rw [headersOf, if_neg long])
  | appendable =>
    by_cases long : flags.length = 10
    · rw [headersOf, if_pos long]
      exact .inr ⟨_, by decide, _, rfl, by simp [long, rawSize]⟩
    · exact .inl (by rw [headersOf, if_neg long])
  | insertOnlyWithoutCompress => exact .inr ⟨_, by decide, _, rfl, rfl⟩
  | _ => exact .inl rfl

theorem headers_stored (r : Request) : headerType r ∈ storedTypes ∧ ∃ raw,
    r.headers.1.flatten = (headerType r).digits ++ raw ∧ raw.length = rawSize (headerType r) := by
  have cases : r.headers.1 = [WType.insertOnly.digits] ∨ ∃ stored ∈ storedTypes, ∃ raw,
    r.headers.1 = stored.digits :: raw ∧ raw.flatten.length = rawSize stored := by
    unfold Request.headers
    by_cases typed : 2 ≤ r.flags.length
    · rw [if_pos typed]
      rcases headersOf_cases r.type r.flags with none | ⟨stored, present, raw, headers, size⟩
      · simp [none]
      · exact .inr ⟨stored, present, raw, by simp [headers], size⟩
    · simp [if_neg typed]
  rcases cases with headers | ⟨stored, present, raw, headers, size⟩
  · rw [headerType, headers]
    exact ⟨by decide, [], rfl, rfl⟩
  · have type : headerType r = stored := by
      rw [headerType, headers]
      exact WType.ofText_digits stored (by rintro rfl; exact absurd present (by decide))
    rw [type, headers]
    exact ⟨present, raw.flatten, rfl, size⟩

theorem exists_stored (r : Request) (m : Moment) (content : Bytes) : ∃ f : Stored,
    f.text = r.headerText m ++ content ∧ f.type = headerType r ∧
      f.date = getDateTime m.now ∧ f.days = BasefuncStd.toString r.ttl ∧
      f.body = content := by
  obtain ⟨stored, raw, headers, size⟩ := headers_stored r
  have named : headerType r ≠ .cdb ∧ headerType r ≠ .unnamed := by
    constructor <;> intro same <;> rw [same] at stored <;> exact absurd stored (by decide)
  refine ⟨⟨headerType r, raw, getDateTime m.now, toString r.ttl, content,
    named, size, getDateTime_length m.calendar, toString_ne_nil _,
    space_not_mem_toString _⟩, ?_, rfl, rfl, rfl, rfl⟩
  simp only [Stored.text, Request.headerText, Disk.headerText, headers, append_assoc,
    cons_append, nil_append]

variable (r : Request) (m : Moment) {mark content : Bytes}

/-- What a client decodes for a short number of days: the header in a full read, and from the answer
to `file_info` unless the file is one that is appended to. -/
theorem decoded (nine : mark.length = 9) (some_ : content ≠ []) (low : -2 ^ 15 ≤ r.ttl)
    (high : r.ttl < 2 ^ 15) : ∃ f : Stored,
    f.type = headerType r ∧ f.date = getDateTime m.now ∧ f.info.ttlDays = r.ttl ∧
      (∃ header, fetchContent (mark ++ (r.headerText m ++ content)) 9 =
        { f.info with header, content }) ∧
      fileInfoOf (infoHeader ((r.headerText m ++ content).take 64)) =
        if headerType r = .appendable then
          { fileType := .appendable
            fileCreated := parseDateTime (f.raw ++ f.date.take 11)
            ttlDays := m.now.time.hour }
        else f.info := by
  have short : (BasefuncStd.toString r.ttl).length ≤ 9 := by
    have digits : (natText r.ttl.natAbs).length ≤ 8 := (natText_length_le (by decide)).mpr (by omega)
    rw [toString_length]
    split <;> omega
  obtain ⟨f, text, type, date, days, body⟩ := exists_stored r m content
  rw [← days] at short
  have narrow : toInt16 r.ttl = r.ttl := by
    rw [toInt16]
    omega
  have read := stoi_toString (n := r.ttl) (by omega)
  refine ⟨f, type, date, ?_, ?_, ?_⟩
  · rw [Stored.info, days, read, map_some, getD_some, narrow]
  · rw [← text, ← body]
    exact fetchContent_text nine short (by rw [body]; exact some_)
  · rw [← text]
    split
    · rename_i appended
      exact fileInfoOf_appended short (type.trans appended) m.calendar date
    · rename_i whole
      exact fileInfoOf_text short (by rw [type]; exact (headers_stored r).1) (by rwa [type])

/-- The number of days in the header of a stored file is the one that a client decodes from a full
read and from the answer to `file_info`, exactly if it fits in 16 bits and, for a file that is
appended to, happens to be the hour of the write. -/
theorem days_decoded_iff (nine : mark.length = 9) (some_ : content ≠ []) :
    ((fetchContent (mark ++ (r.headerText m ++ content)) 9).ttlDays = r.ttl ∧
        (fileInfoOf (infoHeader ((r.headerText m ++ content).take 64))).ttlDays = r.ttl) ↔
      (-2 ^ 15 ≤ r.ttl ∧ r.ttl < 2 ^ 15) ∧
        (headerType r = .appendable → m.now.time.hour = r.ttl) := by
  by_cases fits : -2 ^ 15 ≤ r.ttl ∧ r.ttl < 2 ^ 15
  · obtain ⟨f, -, -, days, ⟨header, full⟩, info⟩ := decoded r m nine some_ fits.1 fits.2
    rw [full, info]
    split
    · grind
    · rename_i whole
      exact iff_of_true ⟨days, days⟩ ⟨fits, fun appended => absurd appended whole⟩
  · refine iff_of_false (fun decoded => fits ?_) (fun holds => fits holds.1)
    rw [← decoded.2]
    exact fileInfoOf_range _

/-- The request for a file with flags and a number of days. -/
def headerRequest (flags days : Bytes) : Request := { ttlDays := days, flags }

/-- Thirty days are decoded. -/
theorem days_decoded_thirty :
    (headerRequest [48, 50] [51, 48]).ttl = 30 ∧
      (fetchContent (List.replicate 9 48 ++
        ((headerRequest [48, 50] [51, 48]).headerText sampleMoment ++ [7])) 9).ttlDays = 30 :=
  ⟨by decide, ((days_decoded_iff (headerRequest [48, 50] [51, 48]) sampleMoment
    (rfl : (List.replicate 9 48 : Bytes).length = 9) (by decide : ([7] : Bytes) ≠ [])).mpr
      (by decide)).1⟩

/-- What a client decodes about the file `a` of a server: from a full read, and from the answer to
`file_info`. -/
def decodeBoth (s : State) : Option (ReadInfo × ReadInfo) :=
  (s.files.read (samplePathOf [97])).map (fun file =>
    (fetchContent (List.replicate 9 48 ++ file) 9, fileInfoOf (infoHeader (file.take 64))))

/-- A file that is written for 40000 days is said to have -25536. -/
theorem days_decoded_cut :
    let outcome := ({ sampleWrite [7] with ttl := 40000 }.sentCall Reference.env
      .insertOnlyWithoutCompress [97]).run Reference.env sampleState
    outcome.response.status = .ok ∧
      (decodeBoth outcome.state).map (fun both => (both.1.ttlDays, both.2.ttlDays)) =
        some (-25536, -25536) := by
  decide +kernel

/-- The five parts of a header that both ways of a client tell. -/
def Agree (a b : ReadInfo) : Prop :=
  a.fileType = b.fileType ∧ a.fileTms = b.fileTms ∧ a.fileCrc32 = b.fileCrc32 ∧
    a.fileCreated = b.fileCreated ∧ a.ttlDays = b.ttlDays

/-- The answer to `file_info` and a full read tell the same about a stored file, exactly if it is
not one that is appended to. -/
theorem info_agrees_iff (nine : mark.length = 9) (some_ : content ≠ []) (low : 0 ≤ r.ttl)
    (high : r.ttl ≤ 9999) :
    Agree (fileInfoOf (infoHeader ((r.headerText m ++ content).take 64)))
        (fetchContent (mark ++ (r.headerText m ++ content)) 9) ↔
      headerType r ≠ .appendable := by
  obtain ⟨f, type, date, -, ⟨header, full⟩, info⟩ :=
    decoded r m nine some_ (by omega) (by omega)
  rw [full, info]
  split
  · rename_i appended
    rw [appended] at type
    refine iff_of_false ?_ (fun whole => whole appended)
    rintro ⟨-, tms, -, created, -⟩
    have raw : f.raw.length = 8 := by rw [f.raw_length, type]; rfl
    -- a time of zero bytes is no date, so that the dates differ when the times do not
    have zero : charsToI64 f.raw = 0 := by
      rw [← take_of_length_le (show f.raw.length ≤ 8 by omega)]
      simpa [Stored.info, type, rawSize] using tms.symm
    have none : parseDateTime (f.raw ++ f.date.take 11) = none := by
      have size : (f.raw ++ f.date.take 11).length = 19 := by
        simp [raw, f.date_length]
      obtain ⟨c, rest, bytes⟩ := exists_cons_of_length_eq_add_one raw
      rw [bytes] at raw zero size ⊢
      obtain rfl := charsToI64_zero zero (by rw [raw])
      simp only [parseDateTime, size]
      rfl
    rw [none] at created
    simp only [Stored.info, date, parseDateTime_getDateTime m.calendar] at created
    cases created
  · rename_i whole
    exact iff_of_true ⟨rfl, rfl, rfl, rfl, rfl⟩ whole

/-- A file that is written once and for thirty days. -/
theorem info_agrees_sample :
    Agree (fileInfoOf (infoHeader (((headerRequest [48, 50] [51, 48]).headerText sampleMoment ++
      [7]).take 64))) (fetchContent (List.replicate 9 48 ++
        ((headerRequest [48, 50] [51, 48]).headerText sampleMoment ++ [7])) 9) :=
  (info_agrees_iff (headerRequest [48, 50] [51, 48]) sampleMoment
    (rfl : (List.replicate 9 48 : Bytes).length = 9) (by decide : ([7] : Bytes) ≠ []) (by decide)
    (by decide)).mpr (by decide)

/-- The answer to `file_info` about a file that is appended to has no time, no date and the hour of
the write for its five days. -/
theorem info_differs_appended :
    let outcome := ({ sampleWrite [7] with ttl := 5 }.sentCall Reference.env .appendable [97]).run
      Reference.env sampleState
    outcome.response.status = .ok ∧
      (decodeBoth outcome.state).map (fun both => ((both.1.fileTms, both.1.fileCreated,
          both.1.ttlDays), (both.2.fileTms, both.2.fileCreated, both.2.ttlDays))) =
        some ((2314885530818453536, some ⟨⟨2024, 1, 1⟩, {}, true⟩, 5), (0, none, 0)) := by
  decide +kernel

end RssDisk.Client
