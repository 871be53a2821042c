import SimplyNode.StreamSocket

/-!
# Datagram Sockets

The receive queue of a `UdpSocket` (`UdpSocket.h/.cpp`). A readable pass calls `recvfrom` with a
buffer of 4096 bytes until it has no more to give, and puts what it receives into a queue, from
which `pendingDatagram` takes. The kernel keeps what has arrived and is not received yet. A datagram
that is longer than the buffer is cut, the rest of it is lost, and a result of zero ends the pass.

The calls of a pass and those of the application come in any order: the queue is behind a mutex, so
`pendingDatagram` may run between two calls of `recvfrom`.

## Main results

* `UdpRun.lossless_iff`: **every datagram is handed over once, whole, with its sender and in
  order**, and ends no pass, if and only if every datagram that is received has between 1 and 4096
  bytes.
-/

open Transition

namespace SimplyNode

/-- `UdpSocketState`. -/
inductive UdpSocketState
  | unbound
  | bound
  | error
  deriving DecidableEq

/-- The family of an address. -/
inductive AddressFamily
  | inet
  | inet6
  | other
  deriving DecidableEq

/-- What `recvfrom` writes into a `sockaddr_storage`. -/
structure SocketAddress where
  family : AddressFamily
  address : Bytes
  port : ℕ
  deriving DecidableEq

/-- A datagram in the kernel. -/
structure KernelDatagram where
  data : Bytes
  sender : SocketAddress
  deriving DecidableEq

/-- `NetworkDatagram`. -/
structure NetworkDatagram where
  data : ByteArray := .ofBytes []
  senderHost : Bytes := []
  senderPort : ℕ := 0
  deriving DecidableEq

/-- The signals of a `UdpSocket` that its receive pass posts. -/
inductive UdpSignal
  | readyRead
  | errorOccurred (message : SocketError)
  deriving DecidableEq

/-- `UdpSocket`. While `handleReadable` is in its loop, `reading` is what it holds in `appended`. -/
structure UdpSocket where
  state : UdpSocketState := .unbound
  descriptor : FileDescriptor := -1
  pendingDatagrams : List NetworkDatagram := []
  reading : Option Bool := none
  posted : List UdpSignal := []
  deriving DecidableEq

/-- `addressToPort`. -/
def SocketAddress.addressToPort (a : SocketAddress) : ℕ :=
  match a.family with
  | .inet | .inet6 => a.port
  | .other => 0

/-- `addressToString`, with `inet_ntop`. -/
def SocketAddress.addressToString (inetNtop : AddressFamily → Bytes → Option Bytes)
    (a : SocketAddress) : Bytes :=
  match a.family with
  | .inet | .inet6 => (inetNtop a.family a.address).getD []
  | .other => []

namespace UdpSocket

variable (inetNtop : AddressFamily → Bytes → Option Bytes) (u : UdpSocket)

/-- The size of the buffer of `handleReadable`. -/
def bufferSize : ℕ := 4096

/-- A socket that `bind` has bound. -/
def bound (fd : FileDescriptor) : UdpSocket := { state := .bound, descriptor := fd }

/-- `UdpSocket::hasPendingDatagram`. -/
def hasPendingDatagram : Bool := !u.pendingDatagrams.isEmpty

/-- `UdpSocket::pendingDatagram`. -/
def pendingDatagram : NetworkDatagram × UdpSocket :=
  match u.pendingDatagrams with
  | [] => ({}, u)
  | front :: rest => (front, { u with pendingDatagrams := rest })

/-- `UdpSocket::failWithErrno`. -/
def failWithErrno (text : String) (errorCode : Errno) : UdpSocket :=
  { u with
    state := .error
    posted := u.posted ++ [.errorOccurred (.system text errorCode)] }

/-- `UdpSocket::handleReadable` comes to its loop. -/
def handleReadable : UdpSocket :=
  if u.descriptor < 0 then u else { u with reading := some false }

/-- The loop of `handleReadable` is left. -/
def leaveLoop (appended : Bool) : UdpSocket :=
  { u with
    reading := none
    posted := if appended then u.posted ++ [.readyRead] else u.posted }

/-- What `recvfrom` receives of a datagram. -/
def received (d : KernelDatagram) : NetworkDatagram where
  data := .ofBytes (d.data.take bufferSize)
  senderHost := d.sender.addressToString inetNtop
  senderPort := d.sender.addressToPort

/-- The loop of `handleReadable` when `recvfrom` has received a datagram. -/
def recvfromReceived (appended : Bool) (d : KernelDatagram) : UdpSocket :=
  let readBytes := min d.data.length bufferSize
  if 0 < readBytes then
    { u with
      pendingDatagrams := u.pendingDatagrams ++ [received inetNtop d]
      reading := some true }
  else u.leaveLoop appended

/-- The loop of `handleReadable` when `recvfrom` has failed. -/
def recvfromFailed (appended : Bool) (errno : Errno) : UdpSocket :=
  if errno = eagain ∨ errno = ewouldblock then u.leaveLoop appended
  else if errno = eintr then u
  else (u.failWithErrno "recvfrom() failed" errno).leaveLoop appended

/-- `UdpSocket::handleEvents`, up to the loop of `handleReadable`. The placeholder
`handleWritable` is left out. -/
def handleEvents (errorCondition readable : Bool) : UdpSocket :=
  if errorCondition then u.failWithErrno "Socket error condition" 103
  else if readable ∧ u.state = .bound then u.handleReadable
  else u

end UdpSocket

/-- What happens to a socket that is bound. -/
inductive UdpEvent
  /-- A datagram arrives in the kernel. -/
  | arrives (d : KernelDatagram)
  | handleEvents (errorCondition readable : Bool)
  /-- `recvfrom` receives the first datagram that is in the kernel. -/
  | recvfromReceives
  | recvfromFails (errno : Errno)
  | pendingDatagram
  deriving DecidableEq

/-- A socket between the kernel and the application, with the datagrams that
`pendingDatagram` has handed over. -/
structure UdpRun where
  kernel : List KernelDatagram := []
  socket : UdpSocket
  handed : List NetworkDatagram := []
  deriving DecidableEq

namespace UdpRun

variable (inetNtop : AddressFamily → Bytes → Option Bytes)

/-- A socket that has been bound, before anything has arrived. -/
def bound (fd : FileDescriptor) : UdpRun := { socket := .bound fd }

/-- What an event does, if it can happen. -/
def step (s : UdpRun) : UdpEvent → Option UdpRun
  | .arrives d => some { s with kernel := s.kernel ++ [d] }
  | .handleEvents errorCondition readable =>
      match s.socket.reading with
      | none => some { s with socket := s.socket.handleEvents errorCondition readable }
      | some _ => none
  | .recvfromReceives =>
      match s.socket.reading, s.kernel with
      | some appended, d :: rest =>
          some { s with
            kernel := rest
            socket := s.socket.recvfromReceived inetNtop appended d }
      | _, _ => none
  | .recvfromFails errno =>
      match s.socket.reading with
      | some appended => some { s with socket := s.socket.recvfromFailed appended errno }
      | none => none
  | .pendingDatagram =>
      some { s with
        socket := s.socket.pendingDatagram.2
        handed :=
          if s.socket.hasPendingDatagram then s.handed ++ [s.socket.pendingDatagram.1]
          else s.handed }

/-- The steps of a run. -/
def Step (s : UdpRun) (e : UdpEvent) (t : UdpRun) : Prop := s.step inetNtop e = some t

/-- A datagram as the application should see it. -/
def whole (d : KernelDatagram) : NetworkDatagram where
  data := .ofBytes d.data
  senderHost := d.sender.addressToString inetNtop
  senderPort := d.sender.addressToPort

/-- The datagram of an event. -/
def arrival : UdpEvent → List KernelDatagram
  | .arrives d => [d]
  | _ => []

/-- The datagrams that arrive. -/
def arrivals (es : List UdpEvent) : List KernelDatagram := es.flatMap arrival

/-- How many of them are received. -/
def receptions (es : List UdpEvent) : ℕ := es.count .recvfromReceives

/-- A datagram that fits into the buffer and is not empty. -/
def Fits (d : KernelDatagram) : Prop := 1 ≤ d.data.length ∧ d.data.length ≤ UdpSocket.bufferSize

/-- The datagrams that have arrived are those handed over, those in the queue and those in the
kernel, whole and in order. -/
def Held (seen : List KernelDatagram) (s : UdpRun) : Prop :=
  seen.map (whole inetNtop) =
    s.handed ++ s.socket.pendingDatagrams ++ s.kernel.map (whole inetNtop)

/-- The datagrams of a run are held at any time, and no reception ends a pass. -/
structure Lossless (seen : List KernelDatagram) (s : UdpRun) (es : List UdpEvent) : Prop where
  held : ∀ front rest t, es = front ++ rest → Reaches (Step inetNtop) s front t →
    Held inetNtop (seen ++ arrivals front) t
  goesOn : ∀ front rest t, es = front ++ .recvfromReceives :: rest →
    Reaches (Step inetNtop) s (front ++ [.recvfromReceives]) t → t.socket.reading.isSome

variable {inetNtop}

theorem step_inj {s t t' : UdpRun} {e : UdpEvent} (h : Step inetNtop s e t)
    (h' : Step inetNtop s e t') : t = t' :=
  Option.some.inj (h.symm.trans h')

theorem reaches_cons {s s' t : UdpRun} {e : UdpEvent} {es : List UdpEvent}
    (h : Step inetNtop s e s') : Reaches (Step inetNtop) s (e :: es) t ↔
      Reaches (Step inetNtop) s' es t := by
  constructor
  · intro hrun
    cases hrun with
    | cons _ hstep hrest => exact step_inj hstep h ▸ hrest
  · exact fun hrun => .cons trivial h hrun

theorem reaches_nil {s t : UdpRun} : Reaches (Step inetNtop) s [] t ↔ t = s := by
  constructor
  · intro hrun
    cases hrun
    rfl
  · rintro rfl
    exact .nil t

/-! ### One event -/

/-- An event that is no reception. -/
theorem held_of_ne {seen : List KernelDatagram} {s t : UdpRun} {e : UdpEvent}
    (h : Held inetNtop seen s) (hstep : Step inetNtop s e t) (he : e ≠ .recvfromReceives) :
    Held inetNtop (seen ++ arrival e) t ∧ t.kernel = s.kernel ++ arrival e := by
  unfold Step step at hstep
  unfold Held at h ⊢
  cases e with
  | arrives d =>
      cases hstep
      exact ⟨by simp [arrival, h], rfl⟩
  | handleEvents errorCondition readable =>
      cases hreading : s.socket.reading with
      | some appended => simp [hreading] at hstep
      | none =>
          rw [hreading] at hstep
          cases hstep
          have hpending : (s.socket.handleEvents errorCondition readable).pendingDatagrams =
              s.socket.pendingDatagrams := by
            unfold UdpSocket.handleEvents UdpSocket.handleReadable
            split_ifs <;> rfl
          exact ⟨by simp [arrival, h, hpending], by simp [arrival]⟩
  | recvfromReceives => exact absurd rfl he
  | recvfromFails errno =>
      cases hreading : s.socket.reading with
      | none => simp [hreading] at hstep
      | some appended =>
          rw [hreading] at hstep
          cases hstep
          have hpending : (s.socket.recvfromFailed appended errno).pendingDatagrams =
              s.socket.pendingDatagrams := by
            unfold UdpSocket.recvfromFailed
            split_ifs <;> rfl
          exact ⟨by simp [arrival, h, hpending], by simp [arrival]⟩
  | pendingDatagram =>
      cases hstep
      refine ⟨?_, by simp [arrival]⟩
      cases hpending : s.socket.pendingDatagrams with
      | nil =>
          simp [arrival, h, hpending, UdpSocket.hasPendingDatagram, UdpSocket.pendingDatagram]
      | cons front rest =>
          simp [arrival, h, hpending, UdpSocket.hasPendingDatagram, UdpSocket.pendingDatagram]

/-- A datagram that fits is received whole. -/
theorem received_eq_whole_iff (d : KernelDatagram) :
    UdpSocket.received inetNtop d = whole inetNtop d ↔ d.data.length ≤ UdpSocket.bufferSize := by
  constructor
  · intro h
    have hbytes : d.data.take UdpSocket.bufferSize = d.data :=
      congrArg (fun n : NetworkDatagram => n.data.bytes) h
    exact List.take_eq_self_iff _ |>.mp hbytes
  · intro h
    rw [UdpSocket.received, List.take_of_length_le h]
    rfl

/-- **A reception** keeps the datagrams and goes on, if and only if the datagram fits. -/
theorem held_reception_iff {seen : List KernelDatagram} {s t : UdpRun} {d : KernelDatagram}
    {rest : List KernelDatagram} (h : Held inetNtop seen s) (hkernel : s.kernel = d :: rest)
    (hstep : Step inetNtop s .recvfromReceives t) :
    (Held inetNtop seen t ∧ t.socket.reading.isSome) ↔ Fits d := by
  unfold Step step at hstep
  cases hreading : s.socket.reading with
  | none => simp [hreading] at hstep
  | some appended =>
      rw [hreading, hkernel] at hstep
      cases hstep
      unfold Held at h ⊢
      rw [hkernel] at h
      by_cases hzero : 0 < min d.data.length UdpSocket.bufferSize
      · have hpush : s.socket.recvfromReceived inetNtop appended d =
            { s.socket with
              pendingDatagrams :=
                s.socket.pendingDatagrams ++ [UdpSocket.received inetNtop d]
              reading := some true } := if_pos hzero
        have hwhole : seen.map (whole inetNtop) = s.handed ++
              (s.socket.pendingDatagrams ++ [UdpSocket.received inetNtop d]) ++
              rest.map (whole inetNtop) ↔
            UdpSocket.received inetNtop d = whole inetNtop d := by
          rw [h]
          simp [eq_comm]
        rw [hpush]
        simp only [hwhole, Option.isSome_some, and_true, received_eq_whole_iff]
        exact ⟨fun hle => ⟨(Nat.lt_min.mp hzero).1, hle⟩, And.right⟩
      · have hleave : s.socket.recvfromReceived inetNtop appended d = s.socket.leaveLoop appended :=
          if_neg hzero
        rw [hleave]
        refine ⟨fun hgoes => absurd hgoes.2 Bool.false_ne_true, fun hfits => absurd ?_ hzero⟩
        exact Nat.lt_min.mpr ⟨hfits.1, by decide⟩

/-! ### Runs -/

theorem exists_kernel_of_reception {s t : UdpRun} (h : Step inetNtop s .recvfromReceives t) :
    ∃ d rest, s.kernel = d :: rest ∧ t.kernel = rest := by
  unfold Step step at h
  cases hreading : s.socket.reading with
  | none => simp [hreading] at h
  | some appended =>
      cases hkernel : s.kernel with
      | nil => simp [hreading, hkernel] at h
      | cons d rest =>
          rw [hreading, hkernel] at h
          cases h
          exact ⟨d, rest, rfl, rfl⟩

/-- A run after its first event. -/
theorem lossless_cons {seen : List KernelDatagram} {s s' : UdpRun} {e : UdpEvent}
    {es : List UdpEvent} (h : Step inetNtop s e s') :
    Lossless inetNtop seen s (e :: es) ↔
      Held inetNtop seen s ∧ (e = .recvfromReceives → s'.socket.reading.isSome) ∧
        Lossless inetNtop (seen ++ arrival e) s' es := by
  constructor
  · intro hall
    refine ⟨?_, fun he => ?_, fun front rest t hes hrun => ?_, fun front rest t hes hrun => ?_⟩
    · simpa [arrivals] using hall.held [] (e :: es) s rfl (.nil s)
    · exact hall.goesOn [] es s' (by rw [he, List.nil_append])
        (by rw [List.nil_append, ← he]; exact .single trivial h)
    · have hheld := hall.held (e :: front) rest t (by rw [hes, List.cons_append])
        ((reaches_cons h).mpr hrun)
      simpa [arrivals] using hheld
    · exact hall.goesOn (e :: front) rest t (by rw [hes, List.cons_append])
        ((reaches_cons h).mpr hrun)
  · rintro ⟨hheld, hgoes, hrest⟩
    refine ⟨fun front rest t hes hrun => ?_, fun front rest t hes hrun => ?_⟩
    · cases front with
      | nil =>
          obtain rfl := reaches_nil.mp hrun
          simpa [arrivals] using hheld
      | cons e' front =>
          obtain ⟨rfl, htail⟩ := List.cons_eq_cons.mp hes
          have hmore := hrest.held front rest t htail ((reaches_cons h).mp hrun)
          simpa [arrivals] using hmore
    · cases front with
      | nil =>
          obtain ⟨rfl, -⟩ := List.cons_eq_cons.mp hes
          obtain rfl := reaches_nil.mp ((reaches_cons h).mp hrun)
          exact hgoes rfl
      | cons e' front =>
          obtain ⟨rfl, htail⟩ := List.cons_eq_cons.mp hes
          exact hrest.goesOn front rest t htail ((reaches_cons h).mp hrun)

/-- The datagrams that a run receives all fit. -/
def AllFit (s : UdpRun) (es : List UdpEvent) : Prop :=
  ∀ d ∈ (s.kernel ++ arrivals es).take (receptions es), Fits d

theorem allFit_cons_of_ne {s t : UdpRun} {e : UdpEvent} {es : List UdpEvent}
    (he : e ≠ .recvfromReceives) (hkernel : t.kernel = s.kernel ++ arrival e) :
    AllFit s (e :: es) ↔ AllFit t es := by
  have hcount : receptions (e :: es) = receptions es := List.count_cons_of_ne he
  have hall : s.kernel ++ arrivals (e :: es) = t.kernel ++ arrivals es := by
    rw [hkernel, arrivals, List.flatMap_cons, ← List.append_assoc]
    rfl
  rw [AllFit, hcount, hall]
  rfl

theorem allFit_cons_reception {s t : UdpRun} {d : KernelDatagram} {es : List UdpEvent}
    (hkernel : s.kernel = d :: t.kernel) :
    AllFit s (.recvfromReceives :: es) ↔ Fits d ∧ AllFit t es := by
  have hcount : receptions (.recvfromReceives :: es) = receptions es + 1 := List.count_cons_self
  have hall : s.kernel ++ arrivals (.recvfromReceives :: es) = d :: (t.kernel ++ arrivals es) := by
    rw [hkernel]
    rfl
  rw [AllFit, hcount, hall, List.take_succ_cons, List.forall_mem_cons]
  rfl

/-- From any state that holds what has arrived. -/
theorem lossless_iff_allFit {seen : List KernelDatagram} {s t : UdpRun} {es : List UdpEvent}
    (hheld : Held inetNtop seen s) (hrun : Reaches (Step inetNtop) s es t) :
    Lossless inetNtop seen s es ↔ AllFit s es := by
  induction hrun generalizing seen with
  | nil s =>
      refine ⟨fun _ d hd => by simp [receptions] at hd, fun _ => ⟨?_, ?_⟩⟩
      · intro front rest t hes hrun
        obtain ⟨rfl, -⟩ := List.append_eq_nil_iff.mp hes.symm
        obtain rfl := reaches_nil.mp hrun
        simpa [arrivals] using hheld
      · intro front rest t hes
        simp at hes
  | @cons s s' t e es _ hstep _ ih =>
      rw [lossless_cons hstep]
      by_cases he : e = .recvfromReceives
      · subst he
        obtain ⟨d, rest, hkernel, rfl⟩ := exists_kernel_of_reception hstep
        have hone := held_reception_iff hheld hkernel hstep
        have hseen : seen ++ arrival .recvfromReceives = seen := List.append_nil seen
        rw [allFit_cons_reception hkernel, hseen]
        constructor
        · rintro ⟨-, hgoes, hrest⟩
          have hheld' : Held inetNtop seen s' := by
            simpa [arrivals] using hrest.held [] es s' rfl (.nil s')
          exact ⟨hone.mp ⟨hheld', hgoes rfl⟩, (ih hheld').mp hrest⟩
        · rintro ⟨hfits, hall⟩
          obtain ⟨hheld', hgoes⟩ := hone.mpr hfits
          exact ⟨hheld, fun _ => hgoes, (ih hheld').mpr hall⟩
      · obtain ⟨hheld', hkernel⟩ := held_of_ne hheld hstep he
        rw [allFit_cons_of_ne he hkernel, ih hheld']
        exact ⟨fun h => h.2.2, fun h => ⟨hheld, fun heq => absurd heq he, h⟩⟩

theorem held_bound (fd : FileDescriptor) : Held inetNtop [] (bound fd) := rfl

/-- **Datagrams are neither lost nor cut**, nor given twice or out of order, and no reception ends a
pass: in a run of a bound socket, with calls of `pendingDatagram` at any time, this is so if and
only if every datagram that is received has between 1 and 4096 bytes. -/
theorem lossless_iff {fd : FileDescriptor} {es : List UdpEvent} {t : UdpRun}
    (h : Reaches (Step inetNtop) (bound fd) es t) :
    Lossless inetNtop [] (bound fd) es ↔
      ∀ d ∈ (arrivals es).take (receptions es),
        1 ≤ d.data.length ∧ d.data.length ≤ UdpSocket.bufferSize :=
  lossless_iff_allFit (held_bound fd) h

/-- `127.0.0.1`. -/
def exampleSender : SocketAddress := { family := .inet, address := [127, 0, 0, 1], port := 5353 }

/-- What `inet_ntop` writes for that address. -/
def exampleNtop : AddressFamily → Bytes → Option Bytes
  | .inet, [127, 0, 0, 1] => some (Text.bytes "127.0.0.1")
  | _, _ => none

/-- A pass that receives one datagram. -/
theorem reaches_reception (d : KernelDatagram) :
    Reaches (Step exampleNtop) (bound 3)
      [.arrives d, .handleEvents false true, .recvfromReceives]
      { socket := ({ UdpSocket.bound 3 with reading := some false } : UdpSocket).recvfromReceived
          exampleNtop false d } :=
  .cons trivial rfl (.cons trivial rfl (.cons trivial rfl (.nil _)))

/-- A pass that receives three datagrams, the last of which arrives while it is under way. It is
interrupted once, and the application takes two of them. -/
def onePass : List UdpEvent :=
  [.arrives { data := [1, 2], sender := exampleSender },
    .arrives { data := [3], sender := exampleSender },
    .handleEvents false true, .recvfromReceives, .recvfromFails eintr, .recvfromReceives,
    .arrives { data := [4, 5, 6], sender := exampleSender }, .recvfromReceives,
    .recvfromFails eagain, .pendingDatagram, .pendingDatagram]

/-- Three datagrams of one pass are kept. -/
theorem datagrams_kept : ∃ t, Reaches (Step exampleNtop) (bound 3) onePass t ∧
    t.handed.map (·.data.remainingView) = [[1, 2], [3]] ∧
    Lossless exampleNtop [] (bound 3) onePass := by
  have hrun : Reaches (Step exampleNtop) (bound 3) onePass _ :=
    .cons trivial rfl <| .cons trivial rfl <| .cons trivial rfl <| .cons trivial rfl <|
    .cons trivial rfl <| .cons trivial rfl <| .cons trivial rfl <| .cons trivial rfl <|
    .cons trivial rfl <| .cons trivial rfl <| .cons trivial rfl <| .nil _
  exact ⟨_, hrun, rfl, (lossless_iff hrun).mpr (by decide)⟩

/-- An empty datagram is dropped, and a long one is cut. -/
theorem odd_datagrams_lost :
    ¬Lossless exampleNtop [] (bound 3)
        [.arrives { data := [], sender := exampleSender }, .handleEvents false true,
          .recvfromReceives] ∧
      ¬Lossless exampleNtop [] (bound 3)
        [.arrives { data := List.replicate 4097 0, sender := exampleSender },
          .handleEvents false true, .recvfromReceives] := by
  constructor
  · intro h
    have hall := (lossless_iff_allFit (held_bound 3) (reaches_reception _)).mp h
    exact absurd (hall _ (List.mem_singleton_self _)).1 (by decide)
  · intro h
    have hall := (lossless_iff_allFit (held_bound 3) (reaches_reception _)).mp h
    have hlong := (hall _ (List.mem_singleton_self _)).2
    rw [List.length_replicate] at hlong
    exact absurd hlong (by decide)

end UdpRun

end SimplyNode
