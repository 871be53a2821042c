import SimplyNode.WebSocketConnection
import SimplyNode.WebSocketHandshake

/-!
# The Upgrade of a Connection

A `WebSocketServer` collects what a client sends until it has a blank line, and validates it as a
handshake request (`WebSocketServer.cpp`). If it is one, the socket goes to a new `WebSocket`, whose
frames begin with the next read. What has come behind the blank line in the same read is not handed
over: it stays in the buffer of the upgrade, which is dropped.

## Main results

* `Upgrade.keepsBytes_iff`: **the bytes behind the request are the frame data** if and only if none
  of them came in the read that ended the request.
-/

namespace SimplyNode

open Text WebSocketHandshake

/-- A connection of a server: a `PendingUpgrade` with its buffer, or a `WebSocket` with the response
that was written and the reads that it was given. -/
inductive Upgrade
  | pending (buffer : Bytes)
  | upgraded (response : Bytes) (webSocket : WebSocketImplNative) (handed : List Bytes)
  | failed (errorMessage : String)
  deriving DecidableEq

namespace Upgrade

/-- `WebSocketServer::handlePendingReadyRead`. -/
def handlePendingReadyRead (buffer data : Bytes) : Upgrade :=
  let buffer := buffer ++ data
  match cutBlank buffer with
  | none => .pending buffer
  | some (head, _) =>
      match validateClientHandshakeRequest (head ++ [13, 10, 13, 10]) with
      | .error errorMessage => .failed errorMessage
      | .ok clientKey =>
          .upgraded (buildServerHandshakeResponse clientKey) (.afterHandshake false) []

/-- A read of the connection. -/
def read : Upgrade → Bytes → Upgrade
  | .pending buffer, data => handlePendingReadyRead buffer data
  | .upgraded response webSocket handed, data =>
      .upgraded response (webSocket.read data) (handed ++ [data])
  | .failed errorMessage, _ => .failed errorMessage

/-- The reads of a connection. -/
def receive (u : Upgrade) (reads : List Bytes) : Upgrade := reads.foldl read u

/-- A valid request, which ends with its first blank line. -/
structure IsRequest (h clientKey : Bytes) : Prop where
  blank : ∃ head, cutBlank h = some (head, [])
  valid : validateClientHandshakeRequest h = .ok clientKey

/-- Once the request is complete, the bytes that have come behind it were handed to the
`WebSocket`, after each of the reads. -/
def KeepsBytes (h clientKey : Bytes) (reads : List Bytes) : Prop :=
  ∀ front rest u, reads = front ++ rest → front.flatten = h ++ u →
    ∃ handed, receive (.pending []) front =
        .upgraded (buildServerHandshakeResponse clientKey)
          ((WebSocketImplNative.afterHandshake false).receive handed) handed ∧
      handed.flatten = u

/-! ### The end of the request -/

theorem cutBlank_append {b head rest : Bytes} (h : cutBlank b = some (head, rest)) (more : Bytes) :
    cutBlank (b ++ more) = some (head, rest ++ more) := by
  obtain rfl := cutBlank_eq_append h
  have hlines := (cutBlank_iff head rest).mp h
  rw [List.append_assoc]
  exact (cutBlank_iff head (rest ++ more)).mpr hlines

namespace IsRequest

variable {h clientKey : Bytes}

theorem ne_nil (hh : IsRequest h clientKey) : h ≠ [] := by
  rintro rfl
  obtain ⟨head, hhead⟩ := hh.blank
  cases hhead

/-- In front of its end, a request has no blank line. -/
theorem cutBlank_front (hh : IsRequest h clientKey) {a b : Bytes} (hab : h = a ++ b) (hb : b ≠ []) :
    cutBlank a = none := by
  cases hcut : cutBlank a with
  | none => rfl
  | some p =>
      obtain ⟨head, hhead⟩ := hh.blank
      have happend := cutBlank_append hcut b
      rw [← hab, hhead] at happend
      have hnil := (List.append_eq_nil_iff.mp (Prod.mk.inj (Option.some.inj happend)).2.symm).2
      exact absurd hnil hb

/-- Reads that do not come to the end of the request are collected. -/
theorem receive_pending (hh : IsRequest h clientKey) {buffer b : Bytes} {front : List Bytes}
    (hfront : h = buffer ++ front.flatten ++ b) (hb : b ≠ []) :
    receive (.pending buffer) front = .pending (buffer ++ front.flatten) := by
  induction front generalizing buffer with
  | nil => rw [List.flatten_nil, List.append_nil]; rfl
  | cons data front ih =>
      rw [List.flatten_cons, ← List.append_assoc] at hfront ⊢
      have hnone : cutBlank (buffer ++ data) = none :=
        hh.cutBlank_front (hfront.trans (List.append_assoc ..)) (by simp [hb])
      have hread : read (.pending buffer) data = .pending (buffer ++ data) := by
        rw [read, handlePendingReadyRead, hnone]
      rw [receive, List.foldl_cons, hread]
      exact ih hfront

/-- The read that ends the request. -/
theorem read_end (hh : IsRequest h clientKey) {buffer data more : Bytes}
    (hdata : buffer ++ data = h ++ more) :
    read (.pending buffer) data =
      .upgraded (buildServerHandshakeResponse clientKey) (.afterHandshake false) [] := by
  obtain ⟨head, hhead⟩ := hh.blank
  have hcut := cutBlank_append hhead more
  have heq : head ++ [13, 10, 13, 10] = h := (cutBlank_eq_append hhead).symm
  rw [read, handlePendingReadyRead, hdata, hcut]
  simp only [heq, hh.valid]

end IsRequest

/-- What an upgraded connection does with its reads. -/
theorem receive_upgraded (response : Bytes) (ws : WebSocketImplNative) (handed reads : List Bytes) :
    receive (.upgraded response ws handed) reads =
      .upgraded response (ws.receive reads) (handed ++ reads) := by
  induction reads generalizing ws handed with
  | nil => rw [List.append_nil]; rfl
  | cons data reads ih =>
      rw [receive, List.foldl_cons, ← receive, read, ih, List.append_assoc]
      rfl

/-- The read in which some bytes end. -/
theorem exists_end {h u : Bytes} (hh : h ≠ []) {reads : List Bytes}
    (hreads : reads.flatten = h ++ u) :
    ∃ front data rest b more, reads = front ++ data :: rest ∧ h = front.flatten ++ b ∧ b ≠ [] ∧
      data = b ++ more ∧ u = more ++ rest.flatten := by
  induction reads generalizing h with
  | nil => exact absurd (List.append_eq_nil_iff.mp hreads.symm).1 hh
  | cons data reads ih =>
      rw [List.flatten_cons] at hreads
      rcases List.append_eq_append_iff.mp hreads with ⟨b, hb, hrest⟩ | ⟨more, hdata, hu⟩
      · cases b with
        | nil =>
            exact ⟨[], data, reads, h, [], rfl, rfl, hh, by simp [hb], by simpa using hrest.symm⟩
        | cons c b =>
            obtain ⟨front, data', rest, b', more, rfl, hb', hne, hdata', hu⟩ :=
              ih (List.cons_ne_nil c b) hrest
            exact ⟨data :: front, data', rest, b', more, rfl, by simp [hb, hb'], hne, hdata', hu⟩
      · exact ⟨[], data, reads, h, more, rfl, rfl, hh, hdata, hu⟩

theorem receive_append (u : Upgrade) (front rest : List Bytes) :
    u.receive (front ++ rest) = (u.receive front).receive rest :=
  List.foldl_append

/-- The `WebSocket` is given the reads behind the one that ends the request. -/
theorem IsRequest.receive_end {h clientKey : Bytes} (hh : IsRequest h clientKey)
    {front rest : List Bytes} {b more : Bytes} (hfront : h = front.flatten ++ b) (hb : b ≠ []) :
    receive (.pending []) (front ++ (b ++ more) :: rest) =
      .upgraded (buildServerHandshakeResponse clientKey)
        ((WebSocketImplNative.afterHandshake false).receive rest) rest := by
  have hpending : receive (.pending []) front = .pending front.flatten :=
    hh.receive_pending (b := b) hfront hb
  have hread : read (.pending front.flatten) (b ++ more) =
      .upgraded (buildServerHandshakeResponse clientKey) (.afterHandshake false) [] :=
    hh.read_end (by rw [hfront, List.append_assoc])
  rw [receive_append, hpending, receive, List.foldl_cons, hread]
  exact receive_upgraded ..

theorem flatten_length_le {f g : List Bytes} (h : f <+: g) :
    f.flatten.length ≤ g.flatten.length := by
  obtain ⟨k, rfl⟩ := h
  rw [List.flatten_append, List.length_append]
  exact Nat.le_add_right ..

/-- If some of the reads make up the request, the read that ends it brings nothing else. -/
theorem more_eq_nil {h b more : Bytes} {front rest front' rest' : List Bytes}
    (hfront : h = front.flatten ++ b) (hb : b ≠ []) (hfront' : front'.flatten = h)
    (hreads : front ++ (b ++ more) :: rest = front' ++ rest') : more = [] := by
  have hprefix : front ++ [b ++ more] <+: front' ++ rest' :=
    ⟨rest, by rw [List.append_assoc]; exact hreads⟩
  have hprefix' : front' <+: front' ++ rest' := List.prefix_append front' rest'
  have hlength : 0 < b.length := List.length_pos_of_ne_nil hb
  rcases le_or_gt (front ++ [b ++ more]).length front'.length with hle | hlt
  · have hflatten := flatten_length_le (List.prefix_of_prefix_length_le hprefix hprefix' hle)
    rw [hfront', hfront] at hflatten
    simp only [List.flatten_append, List.flatten_singleton, List.length_append] at hflatten
    exact List.length_eq_zero_iff.mp (by omega)
  · have hshort : front' <+: front := by
      have hfront'' : front <+: front' ++ rest' :=
        (List.prefix_append front [b ++ more]).trans hprefix
      refine List.prefix_of_prefix_length_le hprefix' hfront'' ?_
      rw [List.length_append, List.length_singleton] at hlt
      omega
    have hflatten := flatten_length_le hshort
    rw [hfront', hfront, List.length_append] at hflatten
    omega

/-- **The bytes behind a request are the frame data** if and only if none of them came in the read
that ended the request: some of the reads make up the request. -/
theorem keepsBytes_iff {h clientKey t : Bytes} {reads : List Bytes} (hh : IsRequest h clientKey)
    (hreads : reads.flatten = h ++ t) :
    KeepsBytes h clientKey reads ↔
      ∃ front rest, reads = front ++ rest ∧ front.flatten = h := by
  constructor
  · intro hkeeps
    obtain ⟨front, data, rest, b, more, rfl, hb, hne, rfl, -⟩ := exists_end hh.ne_nil hreads
    obtain ⟨handed, hreceive, hmore⟩ := hkeeps (front ++ [b ++ more]) rest more (by simp)
      (by simp [hb])
    rw [hh.receive_end hb hne] at hreceive
    obtain ⟨-, -, rfl⟩ := upgraded.inj hreceive
    have hnil : more = [] := hmore.symm
    exact ⟨front ++ [b ++ more], rest, by simp, by simp [hb, hnil]⟩
  · rintro ⟨front', rest', rfl, hfront'⟩ front₀ rest₀ u hreads₀ hu
    obtain ⟨front, data, rest, b, more, rfl, hb, hne, rfl, rfl⟩ := exists_end hh.ne_nil hu
    have hreads' : front ++ (b ++ more) :: (rest ++ rest₀) = front' ++ rest' := by
      rw [hreads₀, List.append_assoc, List.cons_append]
    have hnil : more = [] := more_eq_nil hb hne hfront' hreads'
    exact ⟨rest, hh.receive_end hb hne, by rw [hnil, List.nil_append]⟩

/-- A request of sixteen zeros. -/
def exampleRequest : Bytes :=
  buildClientHandshakeRequest (bytes "::1") 8080 (bytes "chat") (bytes "AAAAAAAAAAAAAAAAAAAAAA==")

/-- The request is valid. -/
theorem isRequest_example : IsRequest exampleRequest (bytes "AAAAAAAAAAAAAAAAAAAAAA==") where
  blank := ⟨exampleRequest.take (exampleRequest.length - 4), by decide +kernel⟩
  valid := by decide +kernel

/-- A frame of a client with the text `x`. -/
def exampleFrame : Bytes := [0x81, 0x81, 0, 0, 0, 0, 120]

/-- A frame in a read of its own. -/
theorem bytes_kept : KeepsBytes exampleRequest (bytes "AAAAAAAAAAAAAAAAAAAAAA==")
    [exampleRequest, exampleFrame] :=
  have hreads : [exampleRequest, exampleFrame].flatten = exampleRequest ++ exampleFrame := by simp
  (keepsBytes_iff isRequest_example hreads).mpr ⟨[exampleRequest], [exampleFrame], rfl, by simp⟩

/-- A frame that comes with the request is lost. -/
theorem bytes_lost :
    receive (.pending []) [exampleRequest ++ exampleFrame] =
        .upgraded (buildServerHandshakeResponse (bytes "AAAAAAAAAAAAAAAAAAAAAA=="))
          (.afterHandshake false) [] ∧
      ¬KeepsBytes exampleRequest (bytes "AAAAAAAAAAAAAAAAAAAAAA==")
        [exampleRequest ++ exampleFrame] := by
  have hlost : receive (.pending []) [exampleRequest ++ exampleFrame] =
      .upgraded (buildServerHandshakeResponse (bytes "AAAAAAAAAAAAAAAAAAAAAA=="))
        (.afterHandshake false) [] := by
    rw [receive, List.foldl_cons, List.foldl_nil]
    exact isRequest_example.read_end (List.nil_append _)
  refine ⟨hlost, fun h => ?_⟩
  obtain ⟨handed, hreceive, hflatten⟩ := h [exampleRequest ++ exampleFrame] [] exampleFrame
    (by simp) (by simp)
  rw [hlost] at hreceive
  obtain ⟨-, -, rfl⟩ := upgraded.inj hreceive
  exact absurd hflatten (by decide)

end Upgrade

end SimplyNode
