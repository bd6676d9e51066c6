import FlashForwarder.Compressor.XmlTemplateParser
import FlashForwarder.Library.Custody
import FlashForwarder.Pgm.Sender

/-!
# The life of a PGM socket

`Init` asks OpenPGM for addresses, a transport and the settings of the transport, and gives all back
where a call fails.  What `Init`, `Reset` and the destructor take and give back is recorded here,
whatever the calls of OpenPGM come to.  A failed assertion is no result.
-/

namespace FlashForwarder

open Custody Traced

/-- What a socket takes from elsewhere. -/
inductive SocketResource where
  /-- A `pgm_sock_t`. -/
  | transport
  /-- A `pgm_addrinfo_t`. -/
  | addresses
  /-- A `pgm_error_t`. -/
  | error
  /-- The array of `pgm_msgv_t`. -/
  | vector
  deriving DecidableEq

/-- The options that `Init` reads. -/
structure PGMOptions where
  /-- `rate`, in kilobits per second, of a type wide enough for what is made of it -/
  rate : Nat
  /-- `recovery_ivl`, in milliseconds -/
  recoveryIvl : Nat
  /-- `rcvbuf` -/
  rcvbuf : Int
  /-- `sndbuf` -/
  sndbuf : Int
  /-- `multicast_loop` -/
  multicastLoop : Bool
  /-- `multicast_hops` -/
  multicastHops : Int
  /-- `group_source` -/
  groupSource : List Char

/-- The options of a transport that are set. -/
inductive SocketOption where
  | udpEncapUcastPort
  | udpEncapMcastPort
  | rcvbuf
  | sndbuf
  | mtu
  | recvOnly
  | rxwSqns
  | peerExpiry
  | spmrExpiry
  | nakBoIvl
  | nakRptIvl
  | nakRdataIvl
  | nakDataRetries
  | nakNcfRetries
  | sendOnly
  | odataMaxRte
  | txwSqns
  | ambientSpm
  | heartbeatSpm
  | joinSourceGroup
  | joinGroup
  | sendGroup
  | multicastLoop
  | multicastHops
  | tos
  | noblock

/-- A call that `Init` makes. -/
inductive SocketCall where
  /-- `pgm_getaddrinfo` -/
  | getaddrinfo (network : List Char)
  /-- `pgm_socket` -/
  | socket (udpEncapsulation : Bool)
  /-- `pgm_setsockopt`, to integers -/
  | set (option : SocketOption) (value : List Int)
  /-- `pgm_setsockopt`, to one of the addresses -/
  | setGroup (option : SocketOption) (address : Nat)
  /-- `pgm_setsockopt`, whatever it returns -/
  | trySet (option : SocketOption) (value : List Int)
  /-- `pgm_gsi_create_from_data` -/
  | createGsi
  /-- `pgm_bind3` -/
  | bind
  /-- `pgm_freeaddrinfo` -/
  | freeaddrinfo
  /-- `pgm_connect` -/
  | connect
  /-- `GetMaxTsduSize` and `malloc` -/
  | allocate

/-- What a call comes to: it may fail, and it may fail in a way that is asserted not to be. -/
inductive Answer where
  | success
  | failure
  | fatal
  deriving DecidableEq

/-- What `pgm_getaddrinfo` finds. -/
structure AddressInfo where
  /-- Whether the family of the first address to send to is `AF_INET6`. -/
  ipv6 : Bool
  /-- `ai_recv_addrs_len` -/
  recvAddrs : Nat

/-- `pgm_msecs` -/
def pgmMsecs (t : Int) : Int := t * 1000

/-- `pgm_secs` -/
def pgmSecs (t : Int) : Int := t * 1000000

/-- `ComputeSqns` -/
def PGMOptions.computeSqns (options : PGMOptions) (tpdu : Nat) : Int :=
  let rate := options.rate / 8
  let size := options.recoveryIvl * rate % 2 ^ 64
  let sqns := size / tpdu
  toInt32 (if sqns = 0 then 1 else sqns)

/-- What is before the last colon, which has to fit a buffer, and the port behind it. -/
def splitAddress (address : List Char) : Option (List Char × UInt16) :=
  if ':' ∉ address then none
  else
    let port := address.reverse.takeWhile (· ≠ ':')
    let length := address.length - port.length - 1
    if 255 ≤ length then none
    else some (address.take length, ((scanInt (String.ofList port.reverse)).getD 0).toUInt16)

/-- The options that are set on a transport before it is bound. -/
def transportCalls (options : PGMOptions) (receiver udpEncapsulation : Bool) (port : UInt16) :
    List SocketCall :=
  (if udpEncapsulation then
      [.set .udpEncapUcastPort [port.toNat], .set .udpEncapMcastPort [port.toNat]]
    else [])
    ++ (if 0 ≤ options.rcvbuf then [.set .rcvbuf [options.rcvbuf]] else [])
    ++ (if 0 ≤ options.sndbuf then [.set .sndbuf [options.sndbuf]] else [])
    ++ [.set .mtu [pgmMaxTpdu]]
    ++ if receiver then
        [.set .recvOnly [1], .set .rxwSqns [options.computeSqns pgmMaxTpdu],
          .set .peerExpiry [pgmSecs 300], .set .spmrExpiry [pgmMsecs 250],
          .set .nakBoIvl [pgmMsecs 50], .set .nakRptIvl [pgmSecs 2],
          .set .nakRdataIvl [pgmSecs 2], .set .nakDataRetries [50], .set .nakNcfRetries [50]]
      else
        [.set .sendOnly [1], .set .odataMaxRte [toInt32 (options.rate * 1000 / 8)],
          .set .txwSqns [options.computeSqns pgmMaxTpdu], .set .ambientSpm [pgmSecs 30],
          .set .heartbeatSpm [pgmMsecs 100, pgmMsecs 100, pgmMsecs 100, pgmMsecs 100,
            pgmMsecs 1300, pgmSecs 7, pgmSecs 16, pgmSecs 25, pgmSecs 30]]

/-- The groups that are joined, one for each address to receive from. -/
def joinCalls (options : PGMOptions) (info : AddressInfo) : List SocketCall :=
  (List.range info.recvAddrs).map fun address =>
    .setGroup (if options.groupSource = [] then .joinGroup else .joinSourceGroup) address

/-- The calls that `Init` makes one after the other as long as they succeed. -/
def initCalls (options : PGMOptions) (receiver udpEncapsulation : Bool) (network : List Char)
    (port : UInt16) (info : AddressInfo) : List SocketCall :=
  [.getaddrinfo network, .socket udpEncapsulation]
    ++ transportCalls options receiver udpEncapsulation port
    ++ [.createGsi, .bind]
    ++ joinCalls options info
    ++ [.setGroup .sendGroup 0, .freeaddrinfo,
        .set .multicastLoop [if options.multicastLoop then 1 else 0],
        .set .multicastHops [options.multicastHops]]
    ++ (if info.ipv6 then [] else [.trySet .tos [0x2e * 4]])
    ++ [.set .noblock [1], .connect]
    ++ if receiver then [.allocate] else []

/-! ## The pointers -/

/-- The pointers that are not null: `sock_`, `pgm_msgv_`, and `res` and `pgm_error` of `Init`. -/
abbrev SocketPointers := Finset SocketResource

/-- What is recorded of a socket. -/
abbrev SocketTrace := Traced (Dealing SocketResource)

namespace SocketPointers

variable (pointers : SocketPointers)

/-- A pointer is set. -/
def acquire (resource : SocketResource) : SocketTrace SocketPointers := do
  emit (.take resource)
  return insert resource pointers

/-- What a pointer points to is freed, and it is set to null. -/
def release (resource : SocketResource) : SocketTrace SocketPointers := do
  emit (.release resource)
  return pointers.erase resource

/-- The same, unless it is null. -/
def giveBack (resource : SocketResource) : SocketTrace SocketPointers :=
  if resource ∈ pointers then pointers.release resource else return pointers

/-- `err_abort` -/
def abort : SocketTrace SocketPointers := do
  let pointers ← pointers.giveBack .transport
  let pointers ← pointers.giveBack .addresses
  pointers.giveBack .error

end SocketPointers

namespace SocketCall

variable (answer : Answer) (pointers : SocketPointers)

/-- A call that sets `pgm_error` where it fails; a fatal error is asserted not to be. -/
def fail : SocketTrace (SocketPointers × Bool) := do
  let pointers ← pointers.acquire .error
  if answer = .fatal then undefined else return (pointers, false)

/-- A call, and whether `Init` goes on behind it.  `InitAddress` has an error of its own, and no
error of `pgm_connect` is taken for a fatal one. -/
def perform : SocketCall → SocketTrace (SocketPointers × Bool)
  | .getaddrinfo _ => do
      if answer = .success then return (← pointers.acquire .addresses, true)
      else do
        let (pointers, goesOn) ← fail answer pointers
        return (← pointers.release .error, goesOn)
  | .socket _ => do
      emit (.use .addresses)
      if answer = .success then return (← pointers.acquire .transport, true)
      else fail answer pointers
  | .set _ _ => do
      emit (.use .transport)
      return (pointers, answer = .success)
  | .setGroup _ _ => do
      emit (.use .addresses)
      emit (.use .transport)
      return (pointers, answer = .success)
  | .trySet _ _ => do
      emit (.use .transport)
      return (pointers, true)
  | .createGsi => return (pointers, answer = .success)
  | .bind => do
      emit (.use .addresses)
      emit (.use .transport)
      if answer = .success then return (pointers, true) else fail answer pointers
  | .freeaddrinfo => return (← pointers.release .addresses, true)
  | .connect => do
      emit (.use .transport)
      if answer = .success then return (pointers, true) else fail .failure pointers
  | .allocate => do
      emit (.use .transport)
      if answer = .success then return (← pointers.acquire .vector, true) else undefined

end SocketCall

/-- The calls up to the first that fails, and `err_abort` behind that. -/
def attempt (answers : SocketCall → Answer) (pointers : SocketPointers) :
    List SocketCall → SocketTrace (SocketPointers × Bool)
  | [] => return (pointers, true)
  | call :: calls => do
      let (pointers, goesOn) ← call.perform (answers call) pointers
      if goesOn then attempt answers pointers calls else return (← pointers.abort, false)

/-- The members of `PGMSocket` that `Init`, `Reset` and the destructor use. -/
structure SocketMembers where
  /-- `options_` -/
  options : PGMOptions
  /-- `receiver_` -/
  receiver : Bool
  /-- `sock_` and `pgm_msgv_`, if they are not null. -/
  pointers : SocketPointers
  /-- `udp_encapsulation_` -/
  udpEncapsulation : Bool
  /-- `network_` -/
  network : List Char

/-- A call from outside, with all that OpenPGM comes to meanwhile. -/
inductive SocketOperation where
  /-- `Init` -/
  | init (answers : SocketCall → Answer) (info : AddressInfo) (udpEncapsulation : Bool)
      (network : List Char)
  /-- `Reset` -/
  | reset (answers : SocketCall → Answer) (info : AddressInfo)

namespace SocketMembers

/-- The members as constructed. -/
def new (options : PGMOptions) (receiver : Bool) : SocketMembers :=
  ⟨options, receiver, ∅, false, []⟩

variable (members : SocketMembers)

/-- `Init`, and whether it returns 0. -/
def init (answers : SocketCall → Answer) (info : AddressInfo) (udpEncapsulation : Bool)
    (network : List Char) : SocketTrace (SocketMembers × Bool) :=
  let members := { members with udpEncapsulation := udpEncapsulation, network := network }
  if .transport ∈ members.pointers ∨ members.options.rate = 0 then undefined
  else
    match splitAddress network with
    | none => do
        let pointers ← members.pointers.abort
        return ({ members with pointers := pointers }, false)
    | some (hosts, port) => do
        let (pointers, done) ← attempt answers members.pointers
          (initCalls members.options members.receiver udpEncapsulation hosts port info)
        return ({ members with pointers := pointers }, done)

/-- The pointers are freed, as in `Reset` and in the destructor. -/
def destroy : SocketTrace SocketMembers := do
  let pointers ← members.pointers.giveBack .vector
  let pointers ← pointers.giveBack .transport
  return { members with pointers := pointers }

/-- `Reset` -/
def reset (answers : SocketCall → Answer) (info : AddressInfo) :
    SocketTrace (SocketMembers × Bool) := do
  let members ← members.destroy
  members.init answers info members.udpEncapsulation members.network

/-- A call, and whether it returns 0. -/
def exec : SocketOperation → SocketTrace (SocketMembers × Bool)
  | .init answers info udpEncapsulation network =>
      members.init answers info udpEncapsulation network
  | .reset answers info => members.reset answers info

/-- Successive calls, and which of them return 0. -/
def run (members : SocketMembers) : List SocketOperation → SocketTrace (SocketMembers × List Bool)
  | [] => return (members, [])
  | operation :: operations => do
      let (members, done) ← members.exec operation
      let (members, returned) ← members.run operations
      return (members, done :: returned)

end SocketMembers

section

variable {pointers last : SocketPointers} {resource : SocketResource} {answer : Answer}
  {call : SocketCall} {calls front back : List SocketCall} {answers : SocketCall → Answer}

/-! ## One call -/

/-- Beside the result of a computation stand the pointers, which tell what is held. -/
abbrev Tells (computation : SocketTrace (SocketPointers × Bool)) (pointers : SocketPointers) :
    Prop :=
  Accounts computation pointers Prod.fst

theorem accounts_acquire (free : resource ∉ pointers) :
    Accounts (pointers.acquire resource) pointers id :=
  .bind (.emit (.take free)) fun _ _ => .pure rfl

theorem accounts_release (held : resource ∈ pointers) :
    Accounts (pointers.release resource) pointers id :=
  .bind (.emit (.release held)) fun _ _ => .pure rfl

theorem accounts_giveBack (pointers : SocketPointers) (resource : SocketResource) :
    Accounts (pointers.giveBack resource) pointers id := by
  rw [SocketPointers.giveBack]
  split
  · rename_i held
    exact accounts_release held
  · exact .pure rfl

theorem outcome_giveBack (pointers : SocketPointers) (resource : SocketResource) :
    (pointers.giveBack resource).outcome = some (pointers.erase resource) := by
  rw [SocketPointers.giveBack]
  split
  · rfl
  · rename_i free
    rw [Finset.erase_eq_of_notMem free]
    rfl

theorem accounts_abort (pointers : SocketPointers) : Accounts pointers.abort pointers id :=
  (accounts_giveBack pointers .transport).bind fun pointers _ =>
    (accounts_giveBack pointers .addresses).bind fun pointers _ => accounts_giveBack pointers .error

theorem outcome_abort (free : .vector ∉ pointers) : pointers.abort.outcome = some ∅ := by
  simp only [SocketPointers.abort, outcome_bind, outcome_giveBack, Option.bind_some,
    Option.some_inj]
  ext resource
  cases resource <;> simp [free]

theorem accounts_fail (free : .error ∉ pointers) :
    Tells (SocketCall.fail answer pointers) pointers :=
  (accounts_acquire free).bind fun _ _ => by
    split
    · exact .undefined
    · exact .pure rfl

/-- The error behind a failure is there to be freed. -/
theorem error_mem_of_fail {result : SocketPointers × Bool}
    (ended : (SocketCall.fail answer pointers).outcome = some result) : .error ∈ result.1 := by
  cases answer <;> simp [SocketCall.fail, SocketPointers.acquire, outcome_bind] at ended <;>
    simp [← ended]

/-- The pointers that a call follows are not null, and those that it sets are. -/
def SocketCall.Allowed (pointers : SocketPointers) : SocketCall → Prop
  | .getaddrinfo _ => .addresses ∉ pointers
  | .socket _ => .addresses ∈ pointers ∧ .transport ∉ pointers
  | .set _ _ | .trySet _ _ | .connect | .allocate => .transport ∈ pointers
  | .setGroup _ _ | .bind => .addresses ∈ pointers ∧ .transport ∈ pointers
  | .freeaddrinfo => .addresses ∈ pointers
  | .createGsi => True

/-- The pointers behind a call, if `Init` goes on. -/
def SocketCall.after (pointers : SocketPointers) : SocketCall → SocketPointers
  | .getaddrinfo _ => insert .addresses pointers
  | .socket _ => insert .transport pointers
  | .freeaddrinfo => pointers.erase .addresses
  | .allocate => insert .vector pointers
  | _ => pointers

theorem accounts_perform (allowed : call.Allowed pointers) (noError : .error ∉ pointers)
    (noVector : .vector ∉ pointers) : Tells (call.perform answer pointers) pointers := by
  cases call with
  | getaddrinfo network =>
      by_cases success : answer = .success
      · simp only [SocketCall.perform, if_pos success]
        exact (accounts_acquire allowed).bind fun _ _ => .pure rfl
      · simp only [SocketCall.perform, if_neg success]
        exact (accounts_fail noError).bind fun _ ended =>
          (accounts_release (error_mem_of_fail ended)).bind fun _ _ => .pure rfl
  | socket udpEncapsulation =>
      refine .bind (.emit (.use allowed.1)) fun _ _ => ?_
      split
      · exact (accounts_acquire allowed.2).bind fun _ _ => .pure rfl
      · exact accounts_fail noError
  | set option value | trySet option value =>
      exact .bind (.emit (.use allowed)) fun _ _ => .pure rfl
  | setGroup option address =>
      exact .bind (.emit (.use allowed.1)) fun _ _ => .bind (.emit (.use allowed.2)) fun _ _ =>
        .pure rfl
  | createGsi => exact .pure rfl
  | bind =>
      refine .bind (.emit (.use allowed.1)) fun _ _ => .bind (.emit (.use allowed.2)) fun _ _ => ?_
      split
      · exact .pure rfl
      · exact accounts_fail noError
  | freeaddrinfo => exact (accounts_release allowed).bind fun _ _ => .pure rfl
  | connect =>
      refine .bind (.emit (.use allowed)) fun _ _ => ?_
      split
      · exact .pure rfl
      · exact accounts_fail noError
  | allocate =>
      refine .bind (.emit (.use allowed)) fun _ _ => ?_
      split
      · exact (accounts_acquire noVector).bind fun _ _ => .pure rfl
      · exact .undefined

theorem perform_ended {goesOn : Bool} (noVector : .vector ∉ pointers)
    (ended : (call.perform answer pointers).outcome = some (last, goesOn)) :
    (goesOn = true → last = call.after pointers) ∧ (goesOn = false → .vector ∉ last) := by
  cases call <;> cases answer <;>
    simp [SocketCall.perform, SocketCall.fail, SocketPointers.acquire, SocketPointers.release,
      outcome_bind] at ended <;>
    obtain ⟨rfl, rfl⟩ := ended <;>
    simp [SocketCall.after, noVector]

/-! ## All calls -/

/-- Every call is allowed where it comes, and nothing is in the way of an error or of the vector;
what is not null in the end. -/
def Proceeds : List SocketCall → SocketPointers → SocketPointers → Prop
  | [], pointers, last => pointers = last
  | call :: calls, pointers, last =>
      call.Allowed pointers ∧ .error ∉ pointers ∧ .vector ∉ pointers ∧
        Proceeds calls (call.after pointers) last

theorem accounts_attempt (proceeds : Proceeds calls pointers last) :
    Tells (attempt answers pointers calls) pointers := by
  induction calls generalizing pointers with
  | nil => exact .pure rfl
  | cons call calls induction =>
      obtain ⟨allowed, noError, noVector, later⟩ := proceeds
      refine (accounts_perform allowed noError noVector).bind fun ⟨next, goesOn⟩ ended => ?_
      have stands := perform_ended noVector ended
      cases goesOn with
      | true =>
          obtain rfl := stands.1 rfl
          exact induction later
      | false => exact (accounts_abort next).bind fun _ _ => .pure rfl

theorem attempt_ended {done : Bool} {final : SocketPointers}
    (proceeds : Proceeds calls pointers last)
    (ended : (attempt answers pointers calls).outcome = some (final, done)) :
    final = if done then last else ∅ := by
  induction calls generalizing pointers with
  | nil =>
      obtain ⟨rfl, rfl⟩ : pointers = final ∧ true = done := by simpa [attempt] using ended
      exact proceeds
  | cons call calls induction =>
      obtain ⟨allowed, noError, noVector, later⟩ := proceeds
      rw [attempt, outcome_bind] at ended
      obtain ⟨⟨next, goesOn⟩, performed, rest⟩ := Option.bind_eq_some_iff.mp ended
      have stands := perform_ended noVector performed
      cases goesOn with
      | true =>
          obtain rfl := stands.1 rfl
          exact induction later rest
      | false =>
          obtain ⟨rfl, rfl⟩ : ∅ = final ∧ false = done := by
            simpa [outcome_bind, outcome_abort (stands.2 rfl)] using rest
          rfl

theorem Proceeds.append {between : SocketPointers} (first : Proceeds front pointers between)
    (second : Proceeds back between last) : Proceeds (front ++ back) pointers last := by
  induction front generalizing pointers with
  | nil =>
      obtain rfl : pointers = between := first
      exact second
  | cons call front induction =>
      obtain ⟨allowed, noError, noVector, later⟩ := first
      exact ⟨allowed, noError, noVector, induction later⟩

theorem proceeds_of_uses
    (uses : ∀ call ∈ calls, call.Allowed pointers ∧ call.after pointers = pointers)
    (noError : .error ∉ pointers) (noVector : .vector ∉ pointers) :
    Proceeds calls pointers pointers := by
  induction calls with
  | nil => rfl
  | cons call calls induction =>
      obtain ⟨⟨allowed, same⟩, later⟩ := List.forall_mem_cons.mp uses
      refine ⟨allowed, noError, noVector, ?_⟩
      rw [same]
      exact induction later

end

/-- What a socket has that is initialised. -/
def opened (receiver : Bool) : SocketPointers :=
  if receiver then {.vector, .transport} else {.transport}

section

variable (options : PGMOptions) (receiver udpEncapsulation : Bool) (network : List Char)
  (port : UInt16) (info : AddressInfo)

theorem set_of_mem_transportCalls :
    ∀ call ∈ transportCalls options receiver udpEncapsulation port,
      ∃ option value, call = .set option value := by
  simp only [transportCalls, List.forall_mem_append]
  refine ⟨⟨⟨⟨?_, ?_⟩, ?_⟩, ?_⟩, ?_⟩ <;> (try split) <;> simp

theorem initCalls_proceed :
    Proceeds (initCalls options receiver udpEncapsulation network port info) ∅
      (opened receiver) := by
  have settings : Proceeds (transportCalls options receiver udpEncapsulation port)
      {.transport, .addresses} {.transport, .addresses} := by
    refine proceeds_of_uses (fun call member => ?_) (by simp) (by simp)
    obtain ⟨option, value, rfl⟩ := set_of_mem_transportCalls _ _ _ _ call member
    exact ⟨by simp [SocketCall.Allowed], rfl⟩
  have joins : Proceeds (joinCalls options info)
      {.transport, .addresses} {.transport, .addresses} := by
    refine proceeds_of_uses (fun call member => ?_) (by simp) (by simp)
    obtain ⟨address, -, rfl⟩ := List.mem_map.mp member
    exact ⟨by simp [SocketCall.Allowed], rfl⟩
  have created : Proceeds [.getaddrinfo network, .socket udpEncapsulation] ∅
      {.transport, .addresses} := by
    simp [Proceeds, SocketCall.Allowed, SocketCall.after]
  have bound : Proceeds [.createGsi, .bind] {.transport, .addresses} {.transport, .addresses} := by
    simp [Proceeds, SocketCall.Allowed, SocketCall.after]
  have freed : Proceeds [.setGroup .sendGroup 0, .freeaddrinfo,
      .set .multicastLoop [if options.multicastLoop then 1 else 0],
      .set .multicastHops [options.multicastHops]] {.transport, .addresses} {.transport} := by
    simp [Proceeds, SocketCall.Allowed, SocketCall.after]
    decide
  have marked : Proceeds (if info.ipv6 then [] else [.trySet .tos [0x2e * 4]])
      {.transport} {.transport} := by
    split <;> simp [Proceeds, SocketCall.Allowed, SocketCall.after]
  have connected : Proceeds [.set .noblock [1], .connect] {.transport} {.transport} := by
    simp [Proceeds, SocketCall.Allowed, SocketCall.after]
  have allocated : Proceeds (if receiver then [.allocate] else []) {.transport}
      (opened receiver) := by
    cases receiver <;> simp [Proceeds, SocketCall.Allowed, SocketCall.after, opened]
  exact ((((((created.append settings).append bound).append joins).append freed).append
    marked).append connected).append allocated

end

namespace SocketMembers

variable {members final : SocketMembers} {done : Bool} {operation : SocketOperation}
  {answers : SocketCall → Answer} {info : AddressInfo}

/-- The pointers of a socket that was initialised, or those of one that was not. -/
def Stands (members : SocketMembers) (initialised : Bool) : Prop :=
  members.pointers = if initialised then opened members.receiver else ∅

/-- What a call accounts, and how it leaves the socket. -/
structure Settles (computation : SocketTrace (SocketMembers × Bool)) (members : SocketMembers) :
    Prop where
  /-- What is held is what is pointed to. -/
  accounts : Accounts computation members.pointers fun result => result.1.pointers
  /-- The socket is initialised just if the call returns 0. -/
  ended : ∀ final done, computation.outcome = some (final, done) →
    final.Stands done ∧ final.receiver = members.receiver

theorem init_settles (empty : members.pointers = ∅) (udpEncapsulation : Bool)
    (network : List Char) :
    Settles (members.init answers info udpEncapsulation network) members := by
  rw [init, empty]
  by_cases noRate : members.options.rate = 0
  · rw [if_pos (.inr noRate)]
    exact ⟨.undefined, nofun⟩
  rw [if_neg (by simp [noRate])]
  cases splitAddress network with
  | none =>
      refine ⟨?_, ?_⟩
      · rw [empty]
        exact (accounts_abort ∅).bind fun _ _ => .pure rfl
      · intro final done ended
        simp only [outcome_bind, outcome_abort (Finset.notMem_empty _)] at ended
        cases ended
        exact ⟨rfl, rfl⟩
  | some place =>
      have proceeds := initCalls_proceed members.options members.receiver udpEncapsulation place.1
        place.2 info
      refine ⟨?_, ?_⟩
      · rw [empty]
        exact (accounts_attempt proceeds).bind fun _ _ => .pure rfl
      · intro final done ended
        rw [outcome_bind] at ended
        obtain ⟨⟨pointers, _⟩, attempted, rest⟩ := Option.bind_eq_some_iff.mp ended
        cases rest
        exact ⟨attempt_ended proceeds attempted, rfl⟩

theorem accounts_destroy (members : SocketMembers) :
    Accounts members.destroy members.pointers pointers :=
  (accounts_giveBack members.pointers .vector).bind fun pointers _ =>
    (accounts_giveBack pointers .transport).bind fun _ _ => .pure rfl

theorem outcome_destroy (stands : members.Stands done) :
    members.destroy.outcome = some { members with pointers := ∅ } := by
  have emptied : (members.pointers.erase .vector).erase .transport = ∅ := by
    rw [stands, opened]
    cases done <;> cases members.receiver <;> decide
  simp only [destroy, outcome_bind, outcome_giveBack, Option.bind_some, emptied, outcome_pure]

theorem exec_settles (stands : members.Stands done) (operation : SocketOperation) :
    Settles (members.exec operation) members := by
  cases operation with
  | init answers info udpEncapsulation network =>
      cases done with
      | false => exact init_settles stands udpEncapsulation network
      | true =>
          have isOpen : .transport ∈ members.pointers := by
            rw [stands, opened]
            cases members.receiver <;> decide
          rw [exec, init, if_pos (.inl isOpen)]
          exact ⟨.undefined, nofun⟩
  | reset answers info =>
      have closed : Settles (init { members with pointers := ∅ } answers info
          members.udpEncapsulation members.network) { members with pointers := ∅ } :=
        init_settles rfl _ _
      refine ⟨(accounts_destroy members).bind fun next destroyed => ?_, fun final done ended => ?_⟩
      · cases (outcome_destroy stands).symm.trans destroyed
        exact closed.accounts
      · rw [exec, reset, outcome_bind, outcome_destroy stands] at ended
        exact closed.ended final done ended

theorem run_settles (stands : members.Stands done) (operations : List SocketOperation) :
    Accounts (members.run operations) members.pointers (fun result => result.1.pointers) ∧
      ∀ final returned, (members.run operations).outcome = some (final, returned) →
        final.Stands (returned.getLast?.getD done) ∧ final.receiver = members.receiver := by
  induction operations generalizing members done with
  | nil =>
      refine ⟨.pure rfl, fun final returned ended => ?_⟩
      cases ended
      exact ⟨stands, rfl⟩
  | cons operation operations induction =>
      have here := exec_settles stands operation
      refine ⟨here.accounts.bind fun result ended => ?_, fun final returned ended => ?_⟩
      · exact (induction (here.ended _ _ ended).1).1.bind fun _ _ => .pure rfl
      · rw [run, outcome_bind] at ended
        obtain ⟨⟨next, last⟩, executed, rest⟩ := Option.bind_eq_some_iff.mp ended
        rw [outcome_bind] at rest
        obtain ⟨⟨_, later⟩, ran, rest⟩ := Option.bind_eq_some_iff.mp rest
        cases rest
        obtain ⟨stands', receiver_eq⟩ := here.ended _ _ executed
        obtain ⟨finally', same⟩ := (induction stands').2 _ _ ran
        refine ⟨?_, same.trans receiver_eq⟩
        cases later with
        | nil => exact finally'
        | cons first later =>
            rw [List.getLast?_cons] at finally'
            rw [List.getLast?_cons_cons, List.getLast?_cons]
            exact finally'

/-- A socket leaks nothing and follows no dead pointer, whatever OpenPGM answers: through any
`Init`s and `Reset`s all dealings are in order, also where an assertion fails in the end.  It holds
a transport, and the vector of a receiver, just when the last call has returned 0, and nothing else;
and once it is destroyed all that was taken was given back. -/
theorem nothing_leaks (options : PGMOptions) (receiver : Bool)
    (operations : List SocketOperation) :
    let run := (new options receiver).run operations
    (∃ held, Leads run.events ∅ held) ∧
      ∀ members returned, run.outcome = some (members, returned) →
        Leads run.events ∅
            (if returned.getLast?.getD false then opened receiver else ∅) ∧
          Leads (run.events ++ members.destroy.events) ∅ ∅ ∧
          ∀ resource,
            (run.events ++ members.destroy.events).countP (takes resource) =
              (run.events ++ members.destroy.events).countP (releases resource) := by
  have constructed : (new options receiver).Stands false := rfl
  obtain ⟨accounts, ended⟩ := run_settles constructed operations
  refine ⟨accounts.ordered, fun members returned ran => ?_⟩
  obtain ⟨stands, receiver_eq⟩ := ended members returned ran
  have led := accounts.ended _ ran
  have closed := (accounts_destroy members).ended _ (outcome_destroy stands)
  have whole := led.append closed
  refine ⟨?_, whole, fun resource => ?_⟩
  · rw [Stands, receiver_eq] at stands
    exact stands ▸ led
  · have balance : holding resource ∅ + _ = _ + holding resource ∅ := whole.balance resource
    simpa [holding] using balance

end SocketMembers

end FlashForwarder
