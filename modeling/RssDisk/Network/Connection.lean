import RssDisk.Network.Session

/-!
# The two ends of a connection

What each side does with one message that its splitter has given out. The client offers a key; the
server answers the offer, and both compute the same key. The client then sends `ok_aes` under the
key, the server answers with the same text, and from then on both encrypt. On the server the first
messages behind that must authorize the client before requests are handed to tasks.
-/

namespace RssDisk.Network

open RssDisk.Lib

/-- The text `ok_aes`. -/
def okAes : Bytes := [111, 107, 95, 97, 101, 115]

/-- The exchange of a key, with `DH_BIG` and `MD5`. -/
structure KeyExchange where
  offer : Bytes → Bytes
  /-- What a server with a secret answers to an offer; `none` when it cannot be read. -/
  reply : Bytes → Bytes → Option Bytes
  /-- The key that a server with a secret computes from an offer. -/
  serverKey : Bytes → Bytes → Bytes
  /-- The key that a client with a secret computes from an answer. -/
  clientKey : Bytes → Bytes → Bytes
  readable : ∀ a b, ∃ answer, reply b (offer a) = some answer
  agree : ∀ a b answer, reply b (offer a) = some answer → clientKey a answer = serverKey b (offer a)
  keyed : ∀ b str, serverKey b str ≠ []

/-- `secure` of a new connection. -/
def Secure.cleared : Secure := ⟨false, false, [], []⟩

/-- A key and the initial vector that goes with it. -/
def Secure.withKey (s : Secure) (key : Bytes) : Secure :=
  { s with aesKey := key, aesIv := key.take 16 }

section

variable (ciphers : Ciphers)

/-- The text that is put between two delimiters for a message. -/
def Secure.seal (s : Secure) (msg : Bytes) (aesEn : Bool) : Bytes :=
  if s.isAes || aesEn then s.encrypt ciphers msg else msg

theorem Secure.outgoing_eq_seal (s : Secure) (det msg : Bytes) (aesEn : Bool) :
    s.outgoing ciphers det msg aesEn = det ++ s.seal ciphers msg aesEn ++ det := by
  rw [Secure.outgoing, Secure.seal]
  split <;> rfl

structure TcpConf extends ClientConf where
  /-- `det_string`. -/
  det : Bytes
  authString : Bytes
  isAes : Bool
  isGostEnc : Bool

/-- What `pr` of `read_bytes` takes a text for. -/
inductive Delivery where
  | key (str : Bytes)
  /-- The text that confirms the encryption, or another one in its place. -/
  | confirmation (text : Bytes)
  | message (text : Bytes)
  | echo
deriving DecidableEq

/-- `pr` of `read_bytes`, for a client that computes its key from an answer. -/
def deliver (conf : TcpConf) (clientKey : Bytes → Bytes) (cl : Secure) (str : Bytes) :
    Secure × Delivery :=
  if conf.isAes then
    if cl.isAes then
      match pr ciphers conf.toClientConf cl str with
      | some text => (cl, .message text)
      | none => (cl, .echo)
    else if cl.aesKey = [] then (cl.withKey (clientKey str), .key str)
    else
      let text := (ciphers.aes cl.aesKey cl.aesIv).symm str
      if text = okAes then
        ({ cl with isAes := true, isGostEnc := cl.isGostEnc || conf.isGostEnc }, .confirmation text)
      else (cl, .confirmation text)
  else if conf.echoString ≠ [] ∧ conf.echoString = str then (cl, .echo)
  else (cl, .message str)

/-- `pr` on one text after another. -/
def deliverAll (conf : TcpConf) (clientKey : Bytes → Bytes) :
    Secure → List Bytes → Secure × List Delivery
  | cl, [] => (cl, [])
  | cl, str :: strs =>
    let first := deliver ciphers conf clientKey cl str
    let rest := deliverAll conf clientKey first.1 strs
    (rest.1, first.2 :: rest.2)

theorem deliverAll_append (conf : TcpConf) (clientKey : Bytes → Bytes) (cl : Secure)
    (front back : List Bytes) :
    deliverAll ciphers conf clientKey cl (front ++ back) =
      ((deliverAll ciphers conf clientKey
          (deliverAll ciphers conf clientKey cl front).1 back).1,
        (deliverAll ciphers conf clientKey cl front).2 ++
          (deliverAll ciphers conf clientKey
            (deliverAll ciphers conf clientKey cl front).1 back).2) := by
  induction front generalizing cl with
  | nil => rfl
  | cons str front ih => simp only [List.cons_append, deliverAll, ih]

/-- The settings of the server. -/
structure ListenConf where
  isAes : Bool
  isGostEnc : Bool
  auth : Bytes

/-- `socket_client`, as far as messages depend on it. -/
structure SocketClient where
  /-- `_s`. -/
  secure : Secure := .cleared
  isAuthorized : Bool := false

/-- What `process_message` does with a text. -/
inductive Processed where
  | offered (str : Bytes)
  | confirmed
  | unconfirmed
  /-- The message is handed to `on_message`. -/
  | handed (message : Bytes)
deriving DecidableEq

def processMessage (conf : ListenConf) (c : SocketClient) (str : Bytes) :
    SocketClient × Processed :=
  if conf.isAes then
    if c.secure.isAes then (c, .handed (c.secure.decrypt ciphers str))
    else if c.secure.aesKey = [] then (c, .offered str)
    else if (ciphers.aes c.secure.aesKey c.secure.aesIv).symm str = okAes then
      ({ c with secure := { c.secure with
          isAes := true, isGostEnc := c.secure.isGostEnc || conf.isGostEnc } }, .confirmed)
    else (c, .unconfirmed)
  else (c, .handed str)

/-- What `on_message` does with a message. -/
inductive Admitted where
  | authorized
  /-- The client is not authorized, and the message is dropped. -/
  | refused
  | task (message : Bytes)
  | listens
  | ignored
deriving DecidableEq

def onMessage (auth : Bytes) (c : SocketClient) (message : Bytes) : SocketClient × Admitted :=
  if !c.isAuthorized then
    if auth = [] ∨ auth = message then ({ c with isAuthorized := true }, .authorized)
    else (c, .refused)
  else if 7 ≤ message.length then (c, .task message)
  else if message = [48, 54] then (c, .listens)
  else (c, .ignored)

end

end RssDisk.Network
