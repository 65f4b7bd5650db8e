import RssDisk.Lib.Reach
import RssDisk.Network.Connection

/-!
# Connections of a client one after another

`connect` clears what the client knows of the encryption, but the buffer of `read_bytes` belongs to
the thread that reads. What a connection has left in it when it ends is put in front of the bytes of
the next one.
-/

namespace RssDisk.Network.Reconnect

open RssDisk.Lib

/-- A client that reads. -/
structure Receiver where
  /-- `m` and `s` of `read_bytes`, which belong to the thread. -/
  buffer : ReadBuffer := {}
  cl : Secure := .cleared
  /-- The key from an answer, with the secret of this connection. -/
  clientKey : Bytes → Bytes
  received : Bytes := []
  delivered : List Delivery := []

inductive Event where
  /-- `connect` with a new secret. -/
  | connect (clientKey : Bytes → Bytes)
  /-- `stop` and `start`: a new thread, which connects. -/
  | restart (clientKey : Bytes → Bytes)
  /-- `recv` returns some bytes. -/
  | receive (chunk : Bytes)

section

variable (ciphers : Ciphers) (conf : TcpConf)

def step (r : Receiver) : Event → Option Receiver
  | .connect clientKey => some { buffer := r.buffer, clientKey }
  | .restart clientKey => some { clientKey }
  | .receive chunk =>
    (readBytes conf.det r.buffer chunk).map (fun read =>
      let delivered := deliverAll ciphers conf r.clientKey r.cl read.2
      { r with buffer := read.1, cl := delivered.1, received := r.received ++ chunk
               delivered := r.delivered ++ delivered.2 })

/-- What the bytes of a connection are delivered as, when nothing came before them. -/
def alone (clientKey : Bytes → Bytes) (received : Bytes) : Option (List Delivery) :=
  (readBytes conf.det {} received).map (fun read =>
    (deliverAll ciphers conf clientKey .cleared read.2).2)

/-- A new connection finds an empty buffer. -/
def Clean (r : Receiver) : Event → Prop
  | .connect _ => r.buffer.m = []
  | .restart _ => True
  | .receive _ => True

/-- The state of the splitter and of the encryption that the bytes of this connection lead to. -/
structure Own (r : Receiver) : Prop where
  buffer : r.buffer.Holds conf.det (feedAll (leftmost conf.det) [] r.received).1
  delivered : deliverAll ciphers conf r.clientKey .cleared
    (feedAll (leftmost conf.det) [] r.received).2 = (r.cl, r.delivered)

variable {ciphers conf}

theorem Own.fresh (filled : conf.det ≠ []) {buffer : ReadBuffer} (empty : buffer.m = [])
    (low : buffer.s = 0) (clientKey : Bytes → Bytes) :
    Own ciphers conf { buffer, clientKey } := by
  have absent : ¬ conf.det <:+: [] := fun inside => filled (List.infix_nil.mp inside)
  exact ⟨⟨empty, absent, low.trans_le (Nat.zero_le _)⟩, rfl⟩

section

variable {r r' : Receiver} (filled : conf.det ≠ []) (own : Own ciphers conf r)

include filled own

theorem Own.receive {chunk : Bytes} (taken : step ciphers conf r (.receive chunk) = some r') :
    Own ciphers conf r' := by
  obtain ⟨b', read, holds⟩ := readBytes_eq filled r.buffer _ chunk own.buffer
  simp only [step, read, Option.map_some, Option.some.injEq] at taken
  subst taken
  have split := feedAll_append (leftmost conf.det) [] r.received chunk
  constructor
  · grind
  · simp only [split, deliverAll_append, own.delivered]

theorem Own.step {event : Event} (clean : Clean r event)
    (taken : step ciphers conf r event = some r') : Own ciphers conf r' := by
  cases event with
  | connect clientKey =>
    cases taken
    have held := own.buffer.bytes.symm.trans clean
    have low := own.buffer.low
    rw [held, List.length_nil, Nat.zero_sub] at low
    exact Own.fresh filled clean (Nat.le_zero.mp low) clientKey
  | restart clientKey =>
    cases taken
    exact Own.fresh filled rfl rfl clientKey
  | receive chunk => exact own.receive filled taken

theorem Own.alone_eq : alone ciphers conf r.clientKey r.received = some r.delivered := by
  have fresh : Own ciphers conf { clientKey := r.clientKey } := Own.fresh filled rfl rfl r.clientKey
  obtain ⟨b', read, -⟩ := readBytes_eq filled {} _ r.received fresh.buffer
  rw [alone, read, Option.map_some]
  exact congrArg some (congrArg Prod.snd own.delivered)

end

theorem check_nil (b : ReadBuffer) : (b.check []).1 = true := by
  have found : find b.m [] b.s = some b.s := by
    rw [find]
    cases b.m.drop b.s with
    | nil => simp [cut]
    | cons c text => simp [cut]
  rw [ReadBuffer.check, found]
  simp only
  split_ifs <;> rfl

theorem readBytes_nil (b : ReadBuffer) (chunk : Bytes) : readBytes [] b chunk = none := by
  have spins (rounds : Nat) (b : ReadBuffer) : ReadBuffer.checkAll [] rounds b = none := by
    induction rounds generalizing b with
    | zero => rfl
    | succ rounds ih =>
      have goes := check_nil b
      rw [ReadBuffer.checkAll]
      split
      · rw [ih]
        rfl
      · rename_i stops
        grind
  exact spins _ _

theorem delivered_nil_step (bare : conf.det = []) {r r' : Receiver} {event : Event}
    (taken : step ciphers conf r event = some r') :
    r'.delivered = [] := by
  cases event with
  | connect clientKey =>
    cases taken
    rfl
  | restart clientKey =>
    cases taken
    rfl
  | receive chunk =>
    rw [step, bare, readBytes_nil] at taken
    cases taken

end

/-- A client delivers, while a connection is current, what a new client delivers from the bytes of
that connection, when every connection ended at the end of a message or with the thread. -/
theorem delivered_eq_alone (ciphers : Ciphers) (conf : TcpConf) (clientKey : Bytes → Bytes)
    (r : Receiver) (reached : Reaches (step ciphers conf) Clean { clientKey } r) :
    r.delivered = (alone ciphers conf r.clientKey r.received).getD [] := by
  by_cases bare : conf.det = []
  · have nothing : r.delivered = [] :=
      reached.invariant (fun r => r.delivered = []) rfl
        (fun _ _ _ _ _ taken => delivered_nil_step bare taken)
    rw [nothing, alone, bare, readBytes_nil]
    rfl
  · have own : Own ciphers conf r :=
      reached.invariant (Own ciphers conf) (Own.fresh bare rfl rfl clientKey)
        (fun _ _ _ own clean taken => own.step bare clean taken)
    rw [own.alone_eq bare]
    rfl

/-- Settings with the delimiter `;` and the encryption on. -/
def sampleConf : TcpConf :=
  { echoString := [], skipAes := false, det := [59], authString := [], isAes := true
    isGostEnc := false }

/-- Two connections that end at the end of a message: the second one delivers its answer. -/
theorem delivered_eq_alone_sample :
    Reaches (step plain sampleConf) Clean { clientKey := id }
        ⟨⟨[], 0⟩, ⟨false, false, [107], [107]⟩, id, [107, 59], [.key [107]]⟩ ∧
      [Delivery.key [107]] = (alone plain sampleConf id [107, 59]).getD [] := by
  have reached : Reaches (step plain sampleConf) Clean { clientKey := id }
      ⟨⟨[], 0⟩, ⟨false, false, [107], [107]⟩, id, [107, 59], [.key [107]]⟩ :=
    .next (.receive [107, 59])
      (.next (.connect id) (.next (.receive [97, 59]) .start trivial rfl) rfl rfl) trivial rfl
  exact ⟨reached, delivered_eq_alone plain sampleConf id _ reached⟩

/-- A connection that ended inside a message: the next one puts the rest of it in front of the
server's answer, and computes its key from both. -/
theorem delivered_mixes :
    ∃ r r', Reaches (step plain sampleConf) (fun _ _ => True) { clientKey := id } r ∧
      Reaches (step plain sampleConf) (fun _ _ => True) { clientKey := id } r' ∧
      r.clientKey = r'.clientKey ∧ r.received = r'.received ∧ r.delivered ≠ r'.delivered :=
  ⟨⟨⟨[], 0⟩, ⟨false, false, [107], [107]⟩, id, [107, 59], [.key [107]]⟩,
    ⟨⟨[], 0⟩, ⟨false, false, [97, 107], [97, 107]⟩, id, [107, 59], [.key [97, 107]]⟩,
    .next (.receive [107, 59]) .start trivial rfl,
    .next (.receive [107, 59])
      (.next (.connect id) (.next (.receive [97]) .start trivial rfl) trivial rfl) trivial rfl,
    rfl, rfl, by decide⟩

end RssDisk.Network.Reconnect
