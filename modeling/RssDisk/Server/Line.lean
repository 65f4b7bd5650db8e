import RssDisk.Server.Accept

/-!
# Reading the line of a request

The bytes of a request are read one by one. A field of text ends at a space; the raw bytes behind
the type are counted and may hold spaces. So a line that is put together from an authorisation, a
name, a number of days and flags is taken apart into them, and the content starts behind it.
-/

namespace RssDisk.Server

open Lib Bitbase List

variable {required : Option Bytes} {r : Request}

theorem readRequest_space (i : Nat) (rest : Bytes) (stable : r.stable = 0) (filled : r.filled < 3)
    (allowed : r.filled = 0 → required = none ∨ required = some r.auth) :
    readRequest required i (32 :: rest) r =
      readRequest required (i + 1) rest
        { r with startContentFrom := i, filled := r.filled + 1 } := by
  have authorised : ¬ (r.filled = 0 ∧ required ≠ none ∧ required ≠ some r.auth) := by
    rintro ⟨first, given, differs⟩
    rcases allowed first with none | same
    · exact given none
    · exact differs same
  rw [readRequest, if_pos ⟨rfl, stable⟩, if_neg authorised, if_neg (by omega)]

theorem place_succ (i : Nat) (c : UInt8) (text : Bytes) :
    i + 1 + text.length = i + (c :: text).length := by
  rw [length_cons]
  omega

theorem readRequest_auth (text : Bytes) (i : Nat) (rest : Bytes) (noSpace : 32 ∉ text)
    (stable : r.stable = 0) (filled : r.filled = 0) (short : text.length ≤ r.maxAuthSize) :
    readRequest required i (text ++ rest) r = readRequest required (i + text.length) rest
      { r with auth := r.auth ++ text, maxAuthSize := r.maxAuthSize - text.length } := by
  induction text generalizing i r with
  | nil => simp
  | cons c text ih =>
    rw [mem_cons, not_or] at noSpace
    rw [length_cons] at short
    have next := ih (i + 1)
      (r := { r with maxAuthSize := r.maxAuthSize - 1, auth := r.auth ++ [c] })
      noSpace.2 stable filled (by simp only; omega)
    rw [cons_append, readRequest, if_neg (fun space => noSpace.1 space.1.symm)]
    simp only [stable, filled, Nat.zero_sub, ↓reduceIte]
    rw [if_neg (by omega)]
    simp only [stable, filled] at next
    have left : r.maxAuthSize - 1 - text.length = r.maxAuthSize - (c :: text).length := by
      rw [length_cons]
      omega
    rw [next, place_succ i c, left]
    simp only [append_assoc, cons_append, nil_append]

theorem readRequest_byte (i : Nat) {c : UInt8} (rest : Bytes) (inside : ¬ (c = 32 ∧ r.stable = 0))
    (later : r.filled ≠ 0) :
    readRequest required i (c :: rest) r =
      readRequest required (i + 1) rest ({ r with stable := r.stable - 1 }.take c) := by
  rw [readRequest, if_neg inside]
  exact if_neg later

theorem readRequest_field (put : Bytes → Request) (later : ∀ done, (put done).filled ≠ 0)
    (takes : ∀ done c, { put done with stable := (put done).stable - 1 }.take c = put (done ++ [c]))
    (done text : Bytes) (i : Nat) (rest : Bytes) (noSpace : 32 ∉ text) :
    readRequest required i (text ++ rest) (put done) =
      readRequest required (i + text.length) rest (put (done ++ text)) := by
  induction text generalizing i done with
  | nil => simp
  | cons c text ih =>
    rw [mem_cons, not_or] at noSpace
    rw [cons_append, readRequest_byte i _ (fun space => noSpace.1 space.1.symm) (later done), takes,
      ih (done ++ [c]) (i + 1) noSpace.2, place_succ i c, append_assoc, singleton_append]

theorem readRequest_name (text : Bytes) (i : Nat) (rest : Bytes) (noSpace : 32 ∉ text)
    (stable : r.stable = 0) (filled : r.filled = 1) :
    readRequest required i (text ++ rest) r = readRequest required (i + text.length) rest
      { r with fileName := r.fileName ++ text } :=
  readRequest_field (fun done => { r with fileName := done }) (by simp [filled])
    (by simp [Request.take, filled, stable]) r.fileName text i rest noSpace

theorem readRequest_days (text : Bytes) (i : Nat) (rest : Bytes) (noSpace : 32 ∉ text)
    (stable : r.stable = 0) (filled : r.filled = 2) :
    readRequest required i (text ++ rest) r = readRequest required (i + text.length) rest
      { r with ttlDays := r.ttlDays ++ text } :=
  readRequest_field (fun done => { r with ttlDays := done }) (by simp [filled])
    (by simp [Request.take, filled, stable]) r.ttlDays text i rest noSpace

theorem readRequest_raw (raw : Bytes) (i : Nat) (rest : Bytes) (stable : r.stable = raw.length)
    (filled : r.filled = 3) (typed : 2 ≤ r.flags.length) :
    readRequest required i (raw ++ rest) r = readRequest required (i + raw.length) rest
      { r with flags := r.flags ++ raw, stable := 0 } := by
  induction raw generalizing i r with
  | nil =>
    have same : { r with flags := r.flags ++ [], stable := 0 } = r := by
      cases r
      simpa using stable.symm
    rw [same]
    rfl
  | cons c raw ih =>
    rw [length_cons] at stable
    have later : ¬ (r.flags ++ [c]).length = 2 := by
      grind
    have taken : { r with stable := r.stable - 1 }.take c =
        { r with flags := r.flags ++ [c], stable := raw.length } := by
      have three : ¬ (3 : Nat) = 1 ∧ ¬ (3 : Nat) = 2 := by decide
      simp only [Request.take, filled, three, ↓reduceIte, later, false_and, stable,
        Nat.add_sub_cancel]
    have next := ih (i + 1) (r := { r with flags := r.flags ++ [c], stable := raw.length }) rfl
      filled (by simp only [length_append]; omega)
    rw [cons_append, readRequest_byte i _ (by omega) (by omega), taken, next, place_succ i c]
    simp only [append_assoc, cons_append, nil_append]

/-- Flags as a write has them: a type of two characters with its raw bytes, or one character. -/
structure IsFlags (head raw : Bytes) : Prop where
  noSpace : 32 ∉ head
  counted : (head.length = 2 ∧ raw.length = rawBytes (WType.ofText head)) ∨
    (head.length = 1 ∧ raw = [])

theorem readRequest_flags {head raw : Bytes} (flags : IsFlags head raw) (i : Nat) (rest : Bytes)
    (stable : r.stable = 0) (filled : r.filled = 3) (empty : r.flags = []) :
    readRequest required i (head ++ (raw ++ rest)) r =
      readRequest required (i + (head ++ raw).length) rest { r with flags := head ++ raw } := by
  have noSpace := flags.noSpace
  rcases flags.counted with ⟨two, sized⟩ | ⟨one, rfl⟩
  · obtain ⟨c, c', rfl⟩ := length_eq_two.mp two
    simp only [mem_cons, not_mem_nil, or_false, not_or] at noSpace
    have first : { r with stable := r.stable - 1 }.take c = { r with flags := [c] } := by
      simp [Request.take, filled, stable, empty]
    -- the second character completes the type, which sets the count of raw bytes
    have second : { { r with flags := [c] } with stable := r.stable - 1 }.take c' =
        { r with flags := [c, c'], stable := raw.length } := by
      by_cases none : rawBytes (WType.ofText [c, c']) = 0
      · simp [Request.take, filled, stable, sized, none]
      · simp [Request.take, filled, sized, Nat.pos_of_ne_zero none]
    have rest : readRequest required (i + 1 + 1) (raw ++ rest)
        { r with flags := [c, c'], stable := raw.length } =
        readRequest required (i + 1 + 1 + raw.length) rest
          { r with flags := [c, c'] ++ raw, stable := 0 } :=
      readRequest_raw raw (i + 1 + 1) rest rfl filled (Nat.le_refl 2)
    rw [cons_append, readRequest_byte i _ (fun space => noSpace.1 space.1.symm) (by omega),
      first, cons_append, nil_append,
      readRequest_byte (i + 1) _ (fun space => noSpace.2 space.1.symm) (by simp only; omega),
      second, rest]
    simp only [← stable, length_append, length_cons, length_nil]
    congr 1
    omega
  · obtain ⟨c, rfl⟩ := length_eq_one_iff.mp one
    simp only [mem_cons, not_mem_nil, or_false] at noSpace
    have taken : { r with stable := r.stable - 1 }.take c = { r with flags := [c] } := by
      simp [Request.take, filled, stable, empty]
    rw [cons_append,
      readRequest_byte i _ (fun space => noSpace space.1.symm) (by omega), taken]
    rfl

def lineText (auth name days flags : Bytes) : Bytes :=
  auth ++ 32 :: (name ++ 32 :: (days ++ 32 :: (flags ++ [32])))

theorem readRequest_line {auth name days head raw : Bytes} (content : Bytes)
    (authSpace : 32 ∉ auth) (short : auth.length ≤ 256) (nameSpace : 32 ∉ name)
    (daysSpace : 32 ∉ days) (flags : IsFlags head raw)
    (allowed : required = none ∨ required = some auth) :
    readRequest required 0 (lineText auth name days (head ++ raw) ++ content) {} =
      { auth, fileName := name, ttlDays := days, flags := head ++ raw, filled := 3
        startContentFrom := (lineText auth name days (head ++ raw)).length - 1
        maxAuthSize := 256 - auth.length } := by
  have whole : lineText auth name days (head ++ raw) ++ content =
      auth ++ (32 :: (name ++ (32 :: (days ++ (32 :: (head ++ (raw ++ (32 :: content)))))))) := by
    simp only [lineText, append_assoc, cons_append, nil_append]
  rw [whole, readRequest_auth auth 0 _ authSpace rfl rfl short,
    readRequest_space _ _ rfl (show 0 < 3 by decide) (fun _ => by simpa using allowed)]
  dsimp only
  rw [readRequest_name name _ _ nameSpace rfl rfl,
    readRequest_space _ _ rfl (show 1 < 3 by decide) (fun first => by cases first)]
  dsimp only
  rw [readRequest_days days _ _ daysSpace rfl rfl,
    readRequest_space _ _ rfl (show 2 < 3 by decide) (fun first => by cases first)]
  dsimp only
  rw [readRequest_flags flags _ _ rfl rfl rfl]
  dsimp only
  have behind : 0 + auth.length + 1 + name.length + 1 + days.length + 1 + (head ++ raw).length =
      (lineText auth name days (head ++ raw)).length - 1 := by
    simp only [lineText, length_append, length_cons, length_nil]
    omega
  rw [readRequest, if_pos ⟨rfl, rfl⟩, if_neg (fun first => by cases first.1), if_pos rfl, behind]
  rfl

theorem drop_lineText (auth name days flags content : Bytes) :
    (lineText auth name days flags ++ content).drop
      ((lineText auth name days flags).length - 1 + 1) = content := by
  have some : 0 < (lineText auth name days flags).length := by
    simp [lineText]
  rw [Nat.sub_add_cancel some, drop_left]

end RssDisk.Server
