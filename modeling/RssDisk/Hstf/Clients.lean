import RssDisk.Hstf.Log

/-!
# Clients of the log

Any number of clients ask a server for its new records, in turn with writes, with `clear` and with
restarts. Besides the log itself the state keeps what was written, how many records `clear` has
dropped, and what each client has processed.
-/

namespace RssDisk.Hstf

open Lib Bitbase List BasefuncStd UInt64

structure Client where
  /-- `remote`, the number of the last record it has asked for. -/
  remote : UInt64 := 0
  processed : List (Nat × Entry) := []
deriving DecidableEq, Repr

/-- A log with its history and its clients. -/
structure Service where
  hstf : Hstf
  added : List Entry := []
  /-- How many records `clear` has dropped. -/
  cleared : Nat := 0
  clients : Nat → Client := fun _ => {}

inductive Event where
  | add (e : Entry)
  | clear
  | restart
  | poll (client : Nat)
deriving DecidableEq, Repr

namespace Service

/-- A client processes what the log answers. -/
def polled (s : Service) (client : Nat) : Service :=
  let answer := poll s.hstf (s.clients client).remote
  let asked : Client := {
    remote := answer.2
    processed := (s.clients client).processed ++ answer.1.map decode }
  { s with clients := Function.update s.clients client asked }

/-- One event. Names that do not fit into a record do not occur. -/
def step (oplogSizeBytes : Int64) (s : Service) : Event → Option Service
  | .add e => if e.Fits then some { s with hstf := s.hstf.add e, added := s.added ++ [e] } else none
  | .clear =>
    let dropped := (s.hstf.content.length - s.hstf.clear.content.length) / ssgmt
    some { s with hstf := s.hstf.clear, cleared := s.cleared + dropped }
  | .restart => some { s with hstf := init oplogSizeBytes s.hstf.file }
  | .poll client => some (s.polled client)

/-- A server that starts without a file. -/
def start (oplogSizeBytes : Int64) : Service := { hstf := init oplogSizeBytes none }

/-- All records together would take less than 2^63 bytes. -/
def Countable (s : Service) : Event → Prop
  | .add _ => ssgmt * (s.added.length + 1) < 2 ^ 63
  | _ => True

instance (s : Service) (event : Event) : Decidable (s.Countable event) := by
  unfold Countable
  split <;> infer_instance

/-- The numbered entries that are kept. -/
def kept (s : Service) : List (Nat × Entry) := numbered (1 + s.cleared) (s.added.drop s.cleared)

/-- How the log, its file and the clients fit the history. -/
structure Good (size : Nat) (s : Service) : Prop where
  /-- The size from which records are dropped is that of the settings. -/
  sized : s.hstf.size = size
  fits : ∀ e ∈ s.added, e.Fits
  counted : ssgmt * s.added.length < 2 ^ 63
  last : s.cleared < s.added.length ∨ (s.cleared = 0 ∧ s.added = [])
  content : s.hstf.content = s.kept.flatMap encode
  number : s.hstf.p.toNat = s.added.length
  file : s.hstf.file = some s.hstf.content ∨ (s.hstf.file = none ∧ s.hstf.content = [])
  behind : ∀ client, (s.clients client).remote.toNat ≤ s.added.length
  /-- What a client has processed has growing numbers, up to the number that it keeps. -/
  ordered : ∀ client, ((s.clients client).processed.map Prod.fst).Pairwise (· < ·) ∧
    ∀ item ∈ (s.clients client).processed, item.1 ≤ (s.clients client).remote.toNat

end Service

theorem cursorOf_query (remote : UInt64) : cursorOf (query remote) = remote := by
  have parts : cut [112, 61] (query remote) = some ([], BasefuncStd.toString remote.toNat) := by
    rw [query, cons_append, cut, if_pos (by simp)]
    rfl
  have digits : (BasefuncStd.toString remote.toNat).takeWhile (fun c => c ≠ 38) =
      BasefuncStd.toString remote.toNat := by
    rw [takeWhile_eq_self_iff]
    intro c present
    have byte := BasefuncStd.toString_bytes present
    simp only [decide_eq_true_eq]
    rintro rfl
    revert byte
    decide
  have read : BasefuncStd.stoul (BasefuncStd.toString remote.toNat) = some remote := by
    have small : (remote.toNat : Int).natAbs < 2 ^ 64 := by
      simpa using remote.toNat_lt
    have value : UInt64.ofInt remote.toNat = remote := by
      rw [UInt64.ofInt, Int.emod_eq_of_lt (by omega) (by omega), Int.toNat_natCast,
        UInt64.ofNat_toNat]
    simp only [BasefuncStd.stoul, BasefuncStd.strtol_toString, if_pos small, value]
  simp only [cursorOf, parts, digits, read, Option.getD_some]

variable {oplogSizeBytes : Int64} {remote : UInt64}

namespace Service

variable {size : Nat} {s : Service}

theorem kept_length (s : Service) : s.kept.length = s.added.length - s.cleared := by
  rw [kept, numbered_length, length_drop]

theorem kept_eq (s : Service) : s.kept = (numbered 1 s.added).drop s.cleared :=
  (drop_numbered 1 s.added s.cleared).symm

theorem kept_append (inside : s.cleared ≤ s.added.length) (entries : List Entry) :
    numbered (1 + s.cleared) ((s.added ++ entries).drop s.cleared) =
      s.kept ++ numbered (s.added.length + 1) entries := by
  rw [drop_append_of_le_length inside, numbered_append, length_drop, kept,
    show 1 + s.cleared + (s.added.length - s.cleared) = s.added.length + 1 by omega]

theorem Good.cleared_le (good : Good size s) : s.cleared ≤ s.added.length := by
  rcases good.last with some | ⟨none, _⟩ <;> omega

theorem Good.readable (good : Good size s) {item : Nat × Entry} (present : item ∈ s.kept) :
    item.2.Fits ∧ item.1 < 2 ^ 64 := by
  obtain ⟨_, high, inside⟩ := mem_numbered present
  have counted := good.counted
  rw [length_drop] at high
  simp only [ssgmt] at counted
  exact ⟨good.fits _ (mem_of_mem_drop inside), by omega⟩

theorem Good.retained_eq (good : Good size s) : retained s.hstf.content = s.kept := by
  rw [good.content]
  exact retained_flatMap (fun _ present => (good.readable present).1)
    (fun _ present => (good.readable present).2)

/-- The entries behind the number of a client. -/
def news (s : Service) (cursor : Nat) : List (Nat × Entry) :=
  s.kept.filter (fun item => cursor < item.1)

theorem news_eq (s : Service) (cursor : Nat) :
    s.news cursor = s.kept.drop (cursor - s.cleared) := by
  rw [news, kept, filter_numbered]
  congr 1
  omega

theorem Good.get_eq (good : Good size s) :
    s.hstf.get (query remote) = some ⟨s.hstf.p,
      if remote < s.hstf.p then some ((s.news remote.toNat).flatMap encode) else none⟩ := by
  rw [get, cursorOf_query]
  by_cases new : remote < s.hstf.p
  · have counted := good.counted
    have number := good.number
    have later : remote.toNat < s.added.length := by
      rw [← number]
      exact lt_iff_toNat_lt.mp new
    simp only [ssgmt] at counted
    have back : toInt64 ((s.hstf.p - remote) * UInt64.ofNat ssgmt).toNat =
        (ssgmt * (s.added.length - remote.toNat) : Nat) := by
      have product : ((s.hstf.p - remote) * UInt64.ofNat ssgmt).toNat =
          ssgmt * (s.added.length - remote.toNat) := by
        rw [UInt64.toNat_mul, UInt64.toNat_sub_of_le _ _ (UInt64.le_of_lt new), number]
        simp only [ssgmt, toNat_ofNat']
        omega
      rw [product, toInt64_eq (by omega) (by simp only [ssgmt]; omega)]
    have length : s.hstf.content.length = ssgmt * (s.added.length - s.cleared) := by
      rw [good.content, flatMap_length_fixed encode_length, kept_length]
    have start : ((s.hstf.content.length : Int) -
        (ssgmt * (s.added.length - remote.toNat) : Nat)).toNat =
        (remote.toNat - s.cleared) * ssgmt := by
      rw [length]
      simp only [ssgmt]
      omega
    have inside : (remote.toNat - s.cleared) * ssgmt ≤ s.hstf.content.length := by
      rw [length]
      simp only [ssgmt]
      omega
    simp only [if_pos new, back, start, if_pos inside]
    rw [good.content, drop_flatMap_fixed encode_length, news_eq]
  · simp only [if_neg new]

theorem Good.poll_eq (good : Good size s) (behind : remote.toNat ≤ s.added.length) :
    poll s.hstf remote = (((s.news remote.toNat).take recordLimit).map encode, s.hstf.p) := by
  have number := good.number
  have counted := good.counted
  simp only [ssgmt] at counted
  have range : s.hstf.p.toNat < 2 ^ 63 := by omega
  simp only [poll, good.get_eq, if_pos range]
  by_cases new : remote < s.hstf.p
  · have enough : ((s.news remote.toNat).flatMap encode).length <
        ssgmt * (0 + ((s.news remote.toNat).flatMap encode).length + 1) := by
      simp only [ssgmt]
      omega
    simp only [if_pos new]
    rw [records_eq _ _ (Nat.zero_le _) enough, recordsOf_flatMap, drop_zero, Nat.sub_zero,
      map_take]
  · have nothing : s.news remote.toNat = [] := by
      rw [lt_iff_toNat_lt, number] at new
      rw [news_eq, drop_eq_nil_iff, kept_length]
      omega
    rw [if_neg new, nothing, take_nil, map_nil]

theorem Good.poll_decoded (good : Good size s) (behind : remote.toNat ≤ s.added.length) :
    (poll s.hstf remote).1.map decode = (s.news remote.toNat).take recordLimit := by
  rw [good.poll_eq behind, map_map]
  conv_rhs => rw [← map_id ((s.news remote.toNat).take recordLimit)]
  refine map_congr_left (fun item present => ?_)
  have inside : item ∈ s.kept := mem_of_mem_filter (mem_of_mem_take present)
  exact decode_encode (good.readable inside).1 (good.readable inside).2

theorem Good.polled_eq (good : Good size s) (client : Nat) :
    (s.polled client).clients client = {
      remote := s.hstf.p
      processed := (s.clients client).processed ++
        (s.news (s.clients client).remote.toNat).take recordLimit } := by
  simp only [Service.polled, Function.update_self, good.poll_decoded (good.behind client)]
  rw [good.poll_eq (good.behind client)]

theorem Good.start (oplogSizeBytes : Int64) :
    Good (sizeOf oplogSizeBytes) (Service.start oplogSizeBytes) :=
  ⟨rfl, by simp [Service.start], by simp [Service.start], .inr ⟨rfl, rfl⟩, rfl, rfl,
    .inr ⟨rfl, rfl⟩, fun _ => by simp [Service.start], fun _ => by simp [Service.start]⟩

theorem Good.add (good : Good size s) {e : Entry} (fits : e.Fits)
    (counted : ssgmt * (s.added.length + 1) < 2 ^ 63) :
    Good size { s with hstf := s.hstf.add e, added := s.added ++ [e] } := by
  have number : (s.hstf.p + 1).toNat = s.added.length + 1 := by
    grind [ssgmt, UInt64.toNat_add, good.number, toNat_one]
  have inside := good.cleared_le
  have kept : (numbered (1 + s.cleared) ((s.added ++ [e]).drop s.cleared)).flatMap encode =
      s.hstf.content ++ record (s.hstf.p + 1) e := by
    have last : UInt64.ofNat (s.added.length + 1) = s.hstf.p + 1 := by
      rw [← number, UInt64.ofNat_toNat]
    rw [kept_append inside, flatMap_append, good.content]
    simp [numbered, encode, last]
  refine ⟨good.sized, ?_, by simpa using counted, ?_, kept.symm,
    number.trans (by simp), ?_, ?_, good.ordered⟩
  · intro other present
    rcases mem_append.mp present with old | new
    · exact good.fits other old
    · grind
  · left
    grind
  · left
    rcases good.file with same | ⟨none, empty⟩
    · simp [Hstf.add, same]
    · simp [Hstf.add, none, empty]
  · intro client
    have behind := good.behind client
    grind

theorem Good.clear (good : Good size s) (positive : 1 ≤ size) :
    Good size { s with
      hstf := s.hstf.clear
      cleared := s.cleared + (s.hstf.content.length - s.hstf.clear.content.length) / ssgmt } := by
  have length : s.hstf.content.length = ssgmt * (s.added.length - s.cleared) := by
    rw [good.content, flatMap_length_fixed encode_length, kept_length]
  by_cases large : s.hstf.size < s.hstf.content.length
  · generalize dropped : (s.hstf.content.length - s.hstf.size) / ssgmt = count
    have few : count < s.added.length - s.cleared := by
      rw [← dropped, Nat.div_lt_iff_lt_mul (by decide), good.sized]
      rw [length] at large ⊢
      simp only [ssgmt] at large ⊢
      omega
    have content : s.hstf.content.drop (count * ssgmt) =
        (numbered (1 + (s.cleared + count)) (s.added.drop (s.cleared + count))).flatMap encode := by
      rw [good.content, drop_flatMap_fixed encode_length, Service.kept, drop_numbered,
        drop_drop, Nat.add_assoc]
    have cleared : s.hstf.clear = { s.hstf with
        content := s.hstf.content.drop (count * ssgmt)
        file := some (s.hstf.content.drop (count * ssgmt)) } := by
      rw [Hstf.clear, if_pos large, dropped]
    have difference : (s.hstf.content.length - s.hstf.clear.content.length) / ssgmt = count := by
      rw [cleared]
      simp only [length_drop]
      rw [length]
      simp only [ssgmt] at few ⊢
      omega
    rw [difference, cleared]
    refine ⟨good.sized, good.fits, good.counted, .inl ?_, content, good.number, .inl rfl,
      good.behind, good.ordered⟩
    grind
  · have same : s.hstf.clear = s.hstf := by rw [Hstf.clear, if_neg large]
    rw [same, Nat.sub_self]
    exact good

theorem Good.restart (good : Good (sizeOf oplogSizeBytes) s) :
    Good (sizeOf oplogSizeBytes) { s with hstf := init oplogSizeBytes s.hstf.file } := by
  have counted := good.counted
  simp only [ssgmt] at counted
  rcases good.last with inside | ⟨zero, nothing⟩
  · have filled : s.added.drop s.cleared ≠ [] := by
      rw [Ne, drop_eq_nil_iff]
      omega
    have content : s.hstf.content ≠ [] := by
      rw [good.content, ← length_pos_iff, flatMap_length_fixed encode_length, kept_length]
      simp only [ssgmt]
      omega
    have file : s.hstf.file = some s.hstf.content :=
      good.file.resolve_right (fun absent => content absent.2)
    rw [file, good.content, kept, init_numbered _ _ filled]
    refine ⟨rfl, good.fits, good.counted, .inl inside, rfl, ?_, .inl rfl, good.behind, good.ordered⟩
    grind [toNat_ofNat_of_lt']
  · have empty : s.hstf.content = [] := by
      simp [good.content, kept, nothing, numbered]
    have fresh : init oplogSizeBytes s.hstf.file =
        { size := sizeOf oplogSizeBytes, file := s.hstf.file } := by
      rcases good.file with same | ⟨none, _⟩
      · rw [same, empty]
        rfl
      · rw [none]
        rfl
    rw [fresh]
    refine ⟨rfl, good.fits, good.counted, .inr ⟨zero, nothing⟩, ?_, ?_, ?_, good.behind,
      good.ordered⟩
    · simp [kept, nothing, numbered]
    · simp [nothing]
    · simpa [empty] using good.file

theorem Good.polled (good : Good size s) (client : Nat) : Good size (s.polled client) := by
  have others : ∀ other, other ≠ client → (s.polled client).clients other = s.clients other :=
    fun other apart => Function.update_of_ne apart _ _
  refine ⟨good.sized, good.fits, good.counted, good.last, good.content, good.number, good.file,
    fun other => ?_, fun other => ?_⟩
  · by_cases same : other = client
    · rw [same, good.polled_eq]
      exact good.number.le
    · rw [others other same]
      exact good.behind other
  · by_cases same : other = client
    · obtain ⟨growing, below⟩ := good.ordered client
      have part : ((s.news (s.clients client).remote.toNat).take recordLimit).Sublist s.kept :=
        (take_sublist _ _).trans filter_sublist
      have above : ∀ item ∈ (s.news (s.clients client).remote.toNat).take recordLimit,
          (s.clients client).remote.toNat < item.1 ∧ item.1 ≤ s.hstf.p.toNat := by
        intro item present
        have new := (mem_filter.mp (mem_of_mem_take present)).2
        have high := (mem_numbered (part.subset present)).2.1
        rw [length_drop] at high
        have inside := good.cleared_le
        rw [good.number]
        exact ⟨by simpa using new, by omega⟩
      rw [same, good.polled_eq]
      refine ⟨?_, fun item present => ?_⟩
      · rw [map_append, pairwise_append]
        refine ⟨growing, (numbered_pairwise _ _).sublist (part.map _), fun n old m new => ?_⟩
        obtain ⟨item, present, rfl⟩ := mem_map.mp old
        obtain ⟨other, later, rfl⟩ := mem_map.mp new
        exact lt_of_le_of_lt (below item present) (above other later).1
      · rcases mem_append.mp present with old | new
        · exact (below item old).trans ((good.behind client).trans good.number.ge)
        · exact (above item new).2
    · rw [others other same]
      exact good.ordered other

theorem Good.step {event : Event} {t : Service} (positive : 1 ≤ sizeOf oplogSizeBytes)
    (good : Good (sizeOf oplogSizeBytes) s) (countable : s.Countable event)
    (taken : s.step oplogSizeBytes event = some t) :
    Good (sizeOf oplogSizeBytes) t := by
  cases event with
  | add e =>
    rw [Service.step] at taken
    split at taken
    · rename_i fits
      cases taken
      exact good.add fits countable
    · cases taken
  | clear =>
    cases taken
    exact good.clear positive
  | restart =>
    cases taken
    exact good.restart
  | poll client =>
    cases taken
    exact good.polled client

theorem sizeOf_pos (positive : 1 ≤ oplogSizeBytes) : 1 ≤ sizeOf oplogSizeBytes := by
  have some : oplogSizeBytes.toUInt64.toNat ≠ 0 := by
    intro zero
    have same : oplogSizeBytes.toUInt64 = 0 := UInt64.toNat_inj.mp zero
    have none : oplogSizeBytes = 0 := by simpa using congrArg UInt64.toInt64 same
    rw [none] at positive
    exact absurd positive (by decide)
  rw [sizeOf, maxSize]
  omega

theorem Good.reached (positive : 1 ≤ oplogSizeBytes)
    (reached : Reaches (Service.step oplogSizeBytes) Countable (Service.start oplogSizeBytes) s) :
    Good (sizeOf oplogSizeBytes) s :=
  reached.invariant (Good (sizeOf oplogSizeBytes)) (.start oplogSizeBytes)
    (fun _ _ _ good countable taken => good.step (sizeOf_pos positive) countable taken)

/-- After any writes, `clear`s, restarts and polls, a client that asks processes the kept entries
behind its number in their order exactly when their places can be counted in 32 bits; it processes
no entry again, and the entries that are not kept were dropped by `clear`. -/
theorem poll_exact {oplogSizeBytes : Int64} (positive : 1 ≤ oplogSizeBytes) {s : Service}
    (reached : Reaches (step oplogSizeBytes) Countable (start oplogSizeBytes) s) (client : Nat) :
    retained s.hstf.content = (numbered 1 s.added).drop s.cleared ∧
      (((s.polled client).clients client).processed = (s.clients client).processed ++
        (retained s.hstf.content).filter (fun item => (s.clients client).remote.toNat < item.1) ↔
        ((retained s.hstf.content).filter
          (fun item => (s.clients client).remote.toNat < item.1)).length ≤ recordLimit) ∧
      ((s.polled client).clients client).remote.toNat = s.added.length ∧
      (((s.polled client).clients client).processed.map Prod.fst).Pairwise (· < ·) := by
  have good := Good.reached positive reached
  rw [good.retained_eq]
  refine ⟨s.kept_eq, ?_, ?_, ((good.polled client).ordered client).1⟩
  · rw [good.polled_eq, news, append_cancel_left_eq, take_eq_self_iff]
  · rw [good.polled_eq]
    exact good.number

/-- An entry with a name of one letter. -/
def sampleEntry (letter : UInt8) (tms : Int64) : Entry := ⟨[letter], tms, 0⟩

/-- A client that asks after two writes, of which `clear` has dropped the first. -/
theorem poll_exact_sample :
    ∃ s, Reaches (step 1) Countable (start 1) s ∧
      ((s.polled 0).clients 0).processed = [(2, sampleEntry 98 7)] := by
  have ran : ∃ s, Reaches (step 1) Countable (start 1) s ∧
      (retained s.hstf.content).filter (fun item => (s.clients 0).remote.toNat < item.1) =
        [(2, sampleEntry 98 7)] ∧ (s.clients 0).processed = [] :=
    Reaches.of_runActions_any [.add (sampleEntry 97 5), .add (sampleEntry 98 7), .clear, .restart]
      (by decide +kernel)
  obtain ⟨s, reached, news, nothing⟩ := ran
  have asked := poll_exact (by decide) reached 0
  refine ⟨s, reached, ?_⟩
  rw [asked.2.1.mpr (by rw [news]; decide), nothing, news]
  rfl

theorem reaches_writes (oplogSizeBytes : Int64) {e : Entry} (fits : e.Fits) (count : Nat)
    (countable : ssgmt * count < 2 ^ 63) :
    ∃ s, Reaches (step oplogSizeBytes) Countable (start oplogSizeBytes) s ∧
      s.added.length = count ∧ s.cleared = 0 ∧ s.clients = fun _ => {} := by
  induction count with
  | zero => exact ⟨_, .start, rfl, rfl, rfl⟩
  | succ count ih =>
    obtain ⟨s, reached, length, cleared, clients⟩ := ih (by simp only [ssgmt] at countable ⊢; omega)
    refine ⟨_, reached.next (.add e) ?_ (if_pos fits), ?_, cleared, clients⟩
    · show ssgmt * (s.added.length + 1) < 2 ^ 63
      grind
    · simp [length]

/-- After 24403224 writes a client does not process all records that are behind its number. -/
theorem poll_loses_records :
    ∃ s, Reaches (step 1) Countable (start 1) s ∧
      ((s.polled 0).clients 0).processed ≠ (s.clients 0).processed ++
        (retained s.hstf.content).filter (fun item => (s.clients 0).remote.toNat < item.1) := by
  have fits : (sampleEntry 97 0).Fits := by decide
  obtain ⟨s, reached, length, cleared, clients⟩ :=
    reaches_writes 1 fits (recordLimit + 1) (by decide)
  have good := Good.reached (by decide) reached
  refine ⟨s, reached, fun same => ?_⟩
  rw [good.retained_eq, good.polled_eq, append_cancel_left_eq] at same
  have lengths := congrArg List.length same
  have behind : (s.clients 0).remote.toNat = 0 := by rw [clients]; rfl
  rw [show List.filter _ s.kept = s.news (s.clients 0).remote.toNat from rfl, length_take,
    news_eq, length_drop, kept_length, length, cleared, behind] at lengths
  omega

end Service

end RssDisk.Hstf
