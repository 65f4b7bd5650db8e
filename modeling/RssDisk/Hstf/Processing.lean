import RssDisk.Hstf.Clients
import RssDisk.Server.Database
import RssDisk.Server.Removal

/-!
# What a client does with a record

`hstf_client::item::process` asks the server for the removal of the file that a record names. The
client does not look at the result: it keeps the number of the last record of the answer in any
case.
-/

namespace RssDisk.Hstf

open Lib Server List

variable (env : Env)

/-- `hstf_client::item::process` at a moment. -/
def process (m : Moment) (rd : State) (v : Bytes) : State × Bool :=
  removeFileByTms env m rd (parse v).name (parse v).tms (parse v).crc32 false

/-- The records of an answer one after another, each at its moment: the server afterwards, and the
number of each record with the result. -/
def processAll (moments : Nat → Moment) : Nat → State → List Bytes → State × List (Nat × Bool)
  | _, rd, [] => (rd, [])
  | turn, rd, v :: records =>
    let done := process env (moments turn) rd v
    let rest := processAll moments (turn + 1) done.1 records
    (rest.1, ((decode v).1, done.2) :: rest.2)

/-- A removal can be done: the name is not locked, and the file can be read if it is there. -/
def Removable (m : Moment) (rd : State) (e : Entry) : Prop :=
  m.busy (segmentPath env (splitSubfolder e.name).2) = false ∧
    ∀ d, rd.conf.dirs.lookup (splitSubfolder e.name).1 = some d →
      Disk.isFileExists rd.files (d.p ++ segmentPath env (splitSubfolder e.name).2) = true →
      m.reads (d.p ++ segmentPath env (splitSubfolder e.name).2) = true

/-- Some removals can be done one after another. -/
def AllRemovable (moments : Nat → Moment) : Nat → State → List Entry → Prop
  | _, _, [] => True
  | turn, rd, e :: entries =>
    Removable env (moments turn) rd e ∧ AllRemovable moments (turn + 1)
      (removeFileByTms env (moments turn) rd e.name e.tms e.crc32 false).1 entries

variable {env}

theorem removeFileByTms_iff {m : Moment} {rd : State} {e : Entry} :
    (removeFileByTms env m rd e.name e.tms e.crc32 false).2 = true ↔ Removable env m rd e := by
  unfold Removable
  cases busy : m.busy (segmentPath env (splitSubfolder e.name).2) with
  | true => simp [removeFileByTms, busy]
  | false =>
    cases found : rd.conf.dirs.lookup (splitSubfolder e.name).1 with
    | none => simp [removeFileByTms, busy, found]
    | some d =>
      rw [removeFileByTms_eq busy found rfl]
      cases content : rd.files.read (d.p ++ segmentPath env (splitSubfolder e.name).2) with
      | none => simp [Disk.isFileExists, content]
      | some bytes =>
        cases reads : m.reads (d.p ++ segmentPath env (splitSubfolder e.name).2) with
        | true =>
          dsimp only
          rw [if_neg (by simp)]
          split <;> simp [reads]
        | false => simp [Disk.isFileExists, content, reads]

theorem processAll_iff (env : Env) (moments : Nat → Moment) (turn : Nat) (rd : State)
    {items : List (Nat × Entry)} (read : ∀ item ∈ items, decode (encode item) = item) :
    (processAll env moments turn rd (items.map encode)).2.map Prod.fst = items.map Prod.fst ∧
      ((∀ result ∈ (processAll env moments turn rd (items.map encode)).2, result.2 = true) ↔
        AllRemovable env moments turn rd (items.map Prod.snd)) := by
  induction items generalizing turn rd with
  | nil => simp [processAll, AllRemovable]
  | cons item items ih =>
    have first := read item mem_cons_self
    have entry : parse (encode item) = item.2 := congrArg Prod.snd first
    have same : process env (moments turn) rd (encode item) =
        removeFileByTms env (moments turn) rd item.2.name item.2.tms item.2.crc32 false := by
      rw [process, entry]
    obtain ⟨numbers, later⟩ := ih (turn + 1) (process env (moments turn) rd (encode item)).1
      (fun other present => read other (mem_cons_of_mem _ present))
    rw [map_cons, processAll]
    refine ⟨?_, ?_⟩
    · rw [map_cons, numbers, first, map_cons]
    · rw [map_cons, AllRemovable, ← removeFileByTms_iff, ← same, ← later,
        forall_mem_cons]

namespace Service

/-- The numbers of the records of a poll, with the results of the removals. -/
def results (env : Env) (s : Service) (client : Nat) (moments : Nat → Moment) (rd : State) :
    List (Nat × Bool) :=
  (processAll env moments 0 rd (poll s.hstf (s.clients client).remote).1).2

/-- A poll moves the number of a client past a record only when the removal that the record asks
for has succeeded. -/
def MovesAfterRemoval (env : Env) (s : Service) (client : Nat) (moments : Nat → Moment)
    (rd : State) : Prop :=
  ∀ n, (s.clients client).remote.toNat < n →
    n ≤ ((s.polled client).clients client).remote.toNat →
      (n, true) ∈ s.results env client moments rd

/-- The number of a client moves past records only after their removals, exactly when all records
behind it are still kept, are few enough for the loop, and ask for removals that can be done. -/
theorem movesAfterRemoval_iff {oplogSizeBytes : Int64} (positive : 1 ≤ oplogSizeBytes)
    {s : Service} (reached : Reaches (step oplogSizeBytes) Countable (start oplogSizeBytes) s)
    (client : Nat) (moments : Nat → Moment) (rd : State) :
    s.MovesAfterRemoval env client moments rd ↔
      s.cleared ≤ (s.clients client).remote.toNat ∧
        (s.news (s.clients client).remote.toNat).length ≤ recordLimit ∧
        AllRemovable env moments 0 rd
          ((s.news (s.clients client).remote.toNat).map Prod.snd) := by
  have good := Good.reached positive reached
  have behind := good.behind client
  have inside := good.cleared_le
  generalize cursor : (s.clients client).remote.toNat = c at behind ⊢
  have moved : ((s.polled client).clients client).remote.toNat = s.added.length := by
    rw [good.polled_eq]
    exact good.number
  have newsNumbers : (s.news c).map Prod.fst =
      List.range' (max c s.cleared + 1) (s.added.length - max c s.cleared) := by
    rw [news_eq, kept, drop_numbered, numbered_numbers, length_drop, length_drop]
    congr 1 <;> omega
  have read : ∀ item ∈ (s.news c).take recordLimit, decode (encode item) = item := by
    intro item present
    have present := good.readable (mem_of_mem_filter (mem_of_mem_take present))
    exact decode_encode present.1 present.2
  obtain ⟨numbers, all⟩ := processAll_iff env moments 0 rd read
  have answered : s.results env client moments rd =
      (processAll env moments 0 rd (((s.news c).take recordLimit).map encode)).2 := by
    rw [results, good.poll_eq (good.behind client), cursor]
  rw [← answered] at numbers all
  rw [map_take, newsNumbers] at numbers
  have length : (s.news c).length = s.added.length - max c s.cleared := by
    rw [← length_map (f := Prod.fst), newsNumbers, length_range']
  rw [MovesAfterRemoval, moved, cursor]
  constructor
  · intro property
    have kept : s.cleared ≤ c := by
      by_contra ahead
      have next := mem_map_of_mem (f := Prod.fst) (property (c + 1) (by omega) (by omega))
      rw [numbers] at next
      have low := (mem_range'_1.mp (mem_of_mem_take next)).1
      omega
    have few : (s.news c).length ≤ recordLimit := by
      by_contra many
      have last := mem_map_of_mem (f := Prod.fst)
        (property s.added.length (by omega) (le_refl _))
      rw [numbers] at last
      obtain ⟨place, small, value⟩ := mem_take_iff_getElem.mp last
      rw [getElem_range'] at value
      omega
    refine ⟨kept, few, ?_⟩
    rw [take_of_length_le few] at all
    refine all.mp (fun result present => ?_)
    have number := mem_map_of_mem (f := Prod.fst) present
    rw [numbers] at number
    obtain ⟨low, high⟩ := mem_range'_1.mp (mem_of_mem_take number)
    have succeeded := property result.1 (by omega) (by omega)
    have nodup : ((s.results env client moments rd).map Prod.fst).Nodup := by
      rw [numbers]
      exact (List.Pairwise.sublist (take_sublist _ _) pairwise_lt_range').imp Nat.ne_of_lt
    rw [← inj_on_of_nodup_map nodup succeeded present rfl]
  · rintro ⟨kept, few, removable⟩ n above below
    rw [take_of_length_le few] at all
    rw [take_of_length_le (by rw [length_range']; omega)] at numbers
    have number : n ∈ (s.results env client moments rd).map Prod.fst := by
      rw [numbers, mem_range'_1]
      omega
    obtain ⟨⟨_, ok⟩, present, rfl⟩ := mem_map.mp number
    have succeeded : ok = true := all.mpr removable _ present
    grind

/-- The sample server with an updatable file of the time zero. -/
def sampleHolder : State :=
  { sampleState with
    files := Files.write ∅ (samplePathOf [97]) (WType.updatable.digits ++ List.replicate 48 0) }

/-- A moment at which every name is locked. -/
def lockedMoment : Moment := { sampleMoment with busy := fun _ => true }

/-- One removal that can be done. -/
theorem movesAfterRemoval_iff_sample :
    ∃ s, Reaches (step 1) Countable (start 1) s ∧
      s.MovesAfterRemoval Reference.env 0 (fun _ => sampleMoment) sampleHolder := by
  have ran : ∃ s, Reaches (step 1) Countable (start 1) s ∧
      s.news (s.clients 0).remote.toNat = [(1, sampleEntry 97 5)] ∧ s.cleared = 0 :=
    Reaches.of_runActions_any [.add (sampleEntry 97 5)] (by decide +kernel)
  obtain ⟨s, reached, news, cleared⟩ := ran
  refine ⟨s, reached, (movesAfterRemoval_iff (by decide) reached 0 _ _).mpr ⟨?_, ?_, ?_⟩⟩
  · grind
  · rw [news]
    decide
  · rw [news]
    exact ⟨⟨rfl, fun _ _ _ => rfl⟩, trivial⟩

/-- The name stays locked, so the file is not removed, but the number of the client moves on. -/
theorem moves_without_removal :
    ∃ s, Reaches (step 1) Countable (start 1) s ∧
      ¬ s.MovesAfterRemoval Reference.env 0 (fun _ => lockedMoment) sampleHolder := by
  have ran : ∃ s, Reaches (step 1) Countable (start 1) s ∧ (s.clients 0).remote = 0 ∧
      ((s.polled 0).clients 0).remote = 1 ∧
      s.results Reference.env 0 (fun _ => lockedMoment) sampleHolder = [(1, false)] :=
    Reaches.of_runActions_any [.add (sampleEntry 97 5)] (by decide +kernel)
  obtain ⟨s, reached, before, behind, failed⟩ := ran
  refine ⟨s, reached, fun property => ?_⟩
  have succeeded := property 1 (by rw [before]; decide) (by rw [behind]; decide)
  rw [failed] at succeeded
  exact absurd succeeded (by decide)

end Service

end RssDisk.Hstf
