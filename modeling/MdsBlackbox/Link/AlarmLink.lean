/- module: MdsBlackbox/Link/AlarmLink
   source: SERVER/rc_server/ultrasonic.c, SERVER/rc_server/th_ultra.c, CLIENT/rc_client/rc_client.c
   digest: The obstacle signal from the echo interrupt to the alarm of the client. -/

import MdsBlackbox.Client.TcpRead
import MdsBlackbox.Lib.Transition
import MdsBlackbox.Server.Ultrasonic

set_option autoImplicit false
set_option relaxedAutoImplicit false

namespace MdsBlackbox.Link.AlarmLink

open MdsBlackbox.Lib.CInt
open MdsBlackbox.Lib.Transition
open MdsBlackbox.Client.Remote
open MdsBlackbox.Client.TcpRead
open MdsBlackbox.Server.Ultrasonic

/-- Where the thread that runs `ultra_func` is: before its open, in its loop before the device
read, before the `write` of some bytes, or gone with the process. -/
inductive UltraThread
  | opening
  | polling
  | writing (payload : List UInt8)
  | exited
  deriving DecidableEq

/-- `memset` of 20 bytes, the device read of one, and the test on `buff[0]`; what is to be written
are the `strlen(buff)` first bytes. -/
def ultraFunc (e : Echo) : UltraThread :=
  let buff := (ultrasonicRead e (List.replicate 20 0) 1).1
  if buff[0]? = some ULTRA_SIG then .writing (buff.takeWhile (· ≠ 0)) else .polling

structure AlarmState where
  echo : Echo
  ultra : UltraThread
  socket : List UInt8
  cnt : Int32
  deriving DecidableEq

def AlarmState.start (cnt : Int32) : AlarmState := ⟨.loaded, .opening, [], cnt⟩

inductive AlarmEvent
  | echo (level : Bool) (now : Timeval)
  | deviceOpen (ok : Bool)
  | deviceRead
  | socketWrite (ok : Bool)
  | clientRead (n : Nat)
  | clientReadFails
  deriving DecidableEq

/-- Interrupts, system calls of the server thread and reads of the client, in any order. TCP is
reliable and in order, and groups the bytes as it likes. -/
def alarmStep (s : AlarmState) : AlarmEvent → Option AlarmState
  | .echo level now => some { s with echo := ultraEchoRising s.echo level now }
  | .deviceOpen ok =>
    if s.ultra = .opening then
      some { s with ultra := if ok then .polling else .exited }
    else none
  | .deviceRead => if s.ultra = .polling then some { s with ultra := ultraFunc s.echo } else none
  | .socketWrite ok =>
    match s.ultra with
    | .writing payload =>
      some { s with ultra := .polling, socket := s.socket ++ if ok then payload else [] }
    | _ => none
  | .clientRead n =>
    if 1 ≤ n ∧ n ≤ MAXLINE ∧ n ≤ s.socket.length then
      some { s with socket := s.socket.drop n, cnt := (tcpRead s.cnt (s.socket.take n)).1 }
    else none
  | .clientReadFails => some { s with cnt := (tcpRead s.cnt []).1 }

/-! Where the bytes come from. -/

/-- An iteration of `ultra_func`, the counter that its device read found, and the measurements of
the last six falling edges at that moment. -/
structure Origin where
  iteration : Nat
  ultraCnt : Int32
  recent : List Int32
  deriving DecidableEq

/-- The record of a run: all measurements, the most recent first; the number of device reads and
the origin of the last one; the origins of the bytes in the connection; the bytes that the client
has received since its last activation, and those between any two consecutive activations. -/
structure Provenance where
  measured : List Int32
  iterations : Nat
  current : Origin
  inFlight : List Origin
  activated : Bool
  received : List (UInt8 × Origin)
  gaps : List (List (UInt8 × Origin))
  deriving DecidableEq

def Provenance.start : Provenance := ⟨[], 0, ⟨0, 0, []⟩, [], false, [], []⟩

/-- A read of `n` bytes by the client. What came before the first activation is in no gap. -/
def Provenance.receive (h : Provenance) (bytes : List UInt8) (n : Nat) (activation : Bool) :
    Provenance :=
  let received := h.received ++ (bytes.take n).zip (h.inFlight.take n)
  { h with
    inFlight := h.inFlight.drop n
    activated := h.activated || activation
    received := if activation then [] else received
    gaps := if activation && h.activated then h.gaps ++ [received] else h.gaps }

def record (s : AlarmState) (e : AlarmEvent) (h : Provenance) : Provenance :=
  match e with
  | .echo level now =>
    if level then h
    else { h with measured := (ultraEchoRising s.echo level now).distanceCm :: h.measured }
  | .deviceRead =>
    { h with
      iterations := h.iterations + 1
      current := ⟨h.iterations, s.echo.ultraCnt, h.measured.take 6⟩ }
  | .socketWrite true =>
    match s.ultra with
    | .writing payload =>
      { h with inFlight := h.inFlight ++ List.replicate payload.length h.current }
    | _ => h
  | .clientRead n => h.receive s.socket n (tcpRead s.cnt (s.socket.take n)).2
  | _ => h

def provenance (cnt : Int32) (es : List AlarmEvent) : Provenance :=
  history alarmStep record (AlarmState.start cnt) Provenance.start es

def Origin.Genuine (o : Origin) : Prop :=
  5 < o.ultraCnt ∧ o.recent.length = 6 ∧ ∀ d ∈ o.recent, d < 15

def Signal (x : UInt8 × Origin) : Prop := x.1 = ULTRA_SIG ∧ x.2.Genuine

/-- The origins of all bytes that a gap holds or may still come to hold, the oldest first. -/
def Provenance.origins (h : Provenance) : List Origin :=
  (h.gaps.flatten ++ h.received).map Prod.snd ++ h.inFlight

/-! The invariant. -/

theorem ultraFunc_eq (e : Echo) :
    ultraFunc e = if 5 < e.ultraCnt then .writing [ULTRA_SIG] else .polling := by
  by_cases h : 5 < e.ultraCnt
  · simp [ultraFunc, ultrasonicRead, distanceFlag, h, ULTRA_SIG, List.replicate_succ]
  · simp [ultraFunc, ultrasonicRead, distanceFlag, h, ULTRA_SIG, List.replicate_succ]

/-- The counter, the byte about to be written, the bytes in the connection and `cnt` against the
record. -/
structure Inv (s : AlarmState) (h : Provenance) : Prop where
  counter : s.echo.ultraCnt = Int32.ofNat (nearRun h.measured)
  pending : ∀ payload, s.ultra = .writing payload → payload = [ULTRA_SIG] ∧ h.current.Genuine ∧
    h.current.iteration < h.iterations ∧ ∀ o ∈ h.origins, o.iteration < h.current.iteration
  parallel : h.inFlight.length = s.socket.length
  bytes : ∀ b ∈ s.socket, b = ULTRA_SIG
  flying : ∀ o ∈ h.inFlight, o.Genuine
  earlier : ∀ o ∈ h.origins, o.iteration < h.iterations
  ordered : h.origins.Pairwise fun o p => o.iteration < p.iteration
  counted : h.activated = true →
    0 ≤ s.cnt.toInt ∧ s.cnt.toInt ≤ h.received.length ∧ s.cnt.toInt < 50
  signals : ∀ x ∈ h.received, Signal x
  gaps : ∀ g ∈ h.gaps, 50 ≤ g.length ∧ ∀ x ∈ g, Signal x

theorem inv_start (cnt : Int32) : Inv (.start cnt) .start where
  counter := rfl
  pending := by simp [AlarmState.start]
  parallel := rfl
  bytes := by simp [AlarmState.start]
  flying := by simp [Provenance.start]
  earlier := by simp [Provenance.origins, Provenance.start]
  ordered := by simp [Provenance.origins, Provenance.start]
  counted := by simp [Provenance.start]
  signals := by simp [Provenance.start]
  gaps := by simp [Provenance.start]

theorem Inv.echo {s : AlarmState} {h : Provenance} (hI : Inv s h) (level : Bool) (now : Timeval) :
    Inv { s with echo := ultraEchoRising s.echo level now } (record s (.echo level now) h) := by
  cases level with
  | true => exact { hI with counter := by simpa [record] using hI.counter }
  | false => exact { hI with counter := counts_falling hI.counter now }

theorem Inv.deviceRead {s : AlarmState} {h : Provenance} (hI : Inv s h) :
    Inv { s with ultra := ultraFunc s.echo } (record s .deviceRead h) where
  counter := hI.counter
  pending := by
    intro payload hp
    have hp : ultraFunc s.echo = .writing payload := hp
    rw [ultraFunc_eq] at hp
    split_ifs at hp with hcnt
    obtain rfl := UltraThread.writing.inj hp
    exact ⟨rfl, ⟨hcnt, near_of_counter hI.counter hcnt⟩, Nat.lt_succ_self _, hI.earlier⟩
  parallel := hI.parallel
  bytes := hI.bytes
  flying := hI.flying
  earlier := fun o ho => (hI.earlier o ho).trans (Nat.lt_succ_self _)
  ordered := hI.ordered
  counted := hI.counted
  signals := hI.signals
  gaps := hI.gaps

theorem Inv.socketWrite {s : AlarmState} {h : Provenance} (hI : Inv s h) {payload : List UInt8}
    (hp : s.ultra = .writing payload) (ok : Bool) :
    Inv { s with ultra := .polling, socket := s.socket ++ if ok then payload else [] }
      (record s (.socketWrite ok) h) := by
  obtain ⟨rfl, hgen, hlt, hlast⟩ := hI.pending payload hp
  cases ok with
  | false =>
    show Inv { s with ultra := .polling, socket := s.socket ++ [] } h
    rw [List.append_nil]
    exact { hI with pending := by simp }
  | true =>
    have hrecord : record s (.socketWrite true) h =
        { h with inFlight := h.inFlight ++ [h.current] } := by
      simp [record, hp]
    rw [hrecord]
    have horigins : ({ h with inFlight := h.inFlight ++ [h.current] } : Provenance).origins =
        h.origins ++ [h.current] := by
      simp [Provenance.origins]
    refine { hI with
      pending := by simp, parallel := ?_, bytes := ?_, flying := ?_, earlier := ?_, ordered := ?_ }
    · rw [List.length_append, List.length_append, hI.parallel]
      rfl
    · intro b hb
      exact (List.mem_append.mp hb).elim (hI.bytes b) List.mem_singleton.mp
    · intro o ho
      exact (List.mem_append.mp ho).elim (hI.flying o) fun he => List.mem_singleton.mp he ▸ hgen
    · intro o ho
      rw [horigins] at ho
      exact (List.mem_append.mp ho).elim (hI.earlier o) fun he => List.mem_singleton.mp he ▸ hlt
    · -- the new origin is younger than all the recorded ones
      rw [horigins, List.pairwise_append]
      refine ⟨hI.ordered, List.pairwise_singleton _ _, fun o ho p hmem => ?_⟩
      obtain rfl := List.mem_singleton.mp hmem
      exact hlast o ho

/-! The client's side of the step. -/

theorem chunk_facts {s : AlarmState} {h : Provenance} (hI : Inv s h) {n : Nat}
    (hn : n ≤ s.socket.length) :
    ((s.socket.take n).zip (h.inFlight.take n)).length = n ∧
      ((s.socket.take n).zip (h.inFlight.take n)).map Prod.snd = h.inFlight.take n ∧
      ∀ x ∈ (s.socket.take n).zip (h.inFlight.take n), Signal x := by
  have hlen : (s.socket.take n).length = (h.inFlight.take n).length := by
    rw [List.length_take, List.length_take, hI.parallel]
  refine ⟨?_, ?_, ?_⟩
  · rw [List.length_zip, ← hlen, List.length_take]
    omega
  · exact List.map_snd_zip (le_of_eq hlen.symm)
  · rintro ⟨b, o⟩ hx
    obtain ⟨hb, ho⟩ := List.of_mem_zip hx
    exact ⟨hI.bytes b (List.mem_of_mem_take hb), hI.flying o (List.mem_of_mem_take ho)⟩

theorem receive_origins {s : AlarmState} {h : Provenance} (hI : Inv s h) {n : Nat}
    (hn : n ≤ s.socket.length) (activation : Bool) :
    (h.receive s.socket n activation).origins.Sublist h.origins := by
  -- a read moves bytes from the connection to the client; the first activation forgets what came
  -- before it
  have hmap := (chunk_facts hI hn).2.1
  have hjoin : h.inFlight.take n ++ h.inFlight.drop n = h.inFlight := List.take_append_drop _ _
  have hall : h.origins = h.gaps.flatten.map Prod.snd ++
      ((h.received ++ (s.socket.take n).zip (h.inFlight.take n)).map Prod.snd ++
        h.inFlight.drop n) := by
    rw [List.map_append, hmap, List.append_assoc _ _ (h.inFlight.drop n), hjoin]
    simp [Provenance.origins]
  cases activation with
  | false =>
    rw [hall]
    simp [Provenance.receive, Provenance.origins]
  | true =>
    rw [hall]
    cases hact : h.activated with
    | true => simp [Provenance.receive, Provenance.origins, hact]
    | false =>
      simp only [Provenance.receive, Provenance.origins, hact, if_true, List.append_nil,
        Bool.and_false, Bool.false_eq_true, if_false]
      exact (List.Sublist.refl _).append (List.sublist_append_right _ _)

theorem tcpRead_signals {s : AlarmState} (hbytes : ∀ b ∈ s.socket, b = ULTRA_SIG) {n : Nat}
    (hn : 1 ≤ n) (hle : n ≤ s.socket.length) :
    tcpRead s.cnt (s.socket.take n) =
      if 50 ≤ s.cnt + 1 then (0, true) else (s.cnt + 1, false) := by
  apply tcpRead_signal
  have hpos : 0 < s.socket.length := by omega
  rw [List.getElem?_take_of_lt (by omega), List.getElem?_eq_getElem hpos]
  exact congrArg some (hbytes _ (List.getElem_mem hpos))

theorem Inv.counted_read {s : AlarmState} {h : Provenance} (hI : Inv s h) {n : Nat} (hn : 1 ≤ n)
    (hle : n ≤ s.socket.length) (hwas : h.activated = true) (hfew : ¬ 50 ≤ s.cnt + 1) :
    0 ≤ (s.cnt + 1).toInt ∧
      (s.cnt + 1).toInt ≤ (h.receive s.socket n false).received.length ∧
        (s.cnt + 1).toInt < 50 := by
  obtain ⟨hpos, hcnt, hlt⟩ := hI.counted hwas
  have hsucc : (s.cnt + 1).toInt = s.cnt.toInt + 1 := toInt_succ (by omega)
  have hgrown : (h.receive s.socket n false).received.length = h.received.length + n := by
    simp only [Provenance.receive, Bool.false_eq_true, if_false, List.length_append,
      (chunk_facts hI hle).1]
  have hbelow : (s.cnt + 1).toInt < 50 := by
    simpa [Int32.le_iff_toInt_le] using hfew
  rw [hgrown, hsucc]
  omega

theorem Inv.gap_closed {s : AlarmState} {h : Provenance} (hI : Inv s h) {n : Nat} (hn : 1 ≤ n)
    (hle : n ≤ s.socket.length) (hwas : h.activated = true) (hfifty : 50 ≤ s.cnt + 1) :
    50 ≤ (h.received ++ (s.socket.take n).zip (h.inFlight.take n)).length := by
  obtain ⟨hpos, hcnt, hlt⟩ := hI.counted hwas
  have hsucc : (s.cnt + 1).toInt = s.cnt.toInt + 1 := toInt_succ (by omega)
  have hreached : 50 ≤ (s.cnt + 1).toInt := by
    simpa [Int32.le_iff_toInt_le] using hfifty
  rw [List.length_append, (chunk_facts hI hle).1]
  omega

theorem Inv.clientRead {s : AlarmState} {h : Provenance} (hI : Inv s h) {n : Nat} (hn : 1 ≤ n)
    (hle : n ≤ s.socket.length) :
    Inv { s with socket := s.socket.drop n, cnt := (tcpRead s.cnt (s.socket.take n)).1 }
      (record s (.clientRead n) h) := by
  have hsub : (record s (.clientRead n) h).origins.Sublist h.origins :=
    receive_origins hI hle _
  have hreceived : ∀ x ∈ h.received ++ (s.socket.take n).zip (h.inFlight.take n), Signal x := by
    intro x hx
    exact (List.mem_append.mp hx).elim (hI.signals x) ((chunk_facts hI hle).2.2 x)
  have hcount := tcpRead_signals hI.bytes hn hle
  refine ⟨hI.counter, ?_, ?_, ?_, ?_, ?_, hI.ordered.sublist hsub, ?_, ?_, ?_⟩
  · intro payload hp
    obtain ⟨hsig, hgen, hlt, hlast⟩ := hI.pending payload hp
    exact ⟨hsig, hgen, hlt, fun o ho => hlast o (hsub.subset ho)⟩
  · show (h.inFlight.drop n).length = (s.socket.drop n).length
    rw [List.length_drop, List.length_drop, hI.parallel]
  · exact fun b hb => hI.bytes b (List.mem_of_mem_drop hb)
  · exact fun o ho => hI.flying o (List.mem_of_mem_drop ho)
  · exact fun o ho => hI.earlier o (hsub.subset ho)
  · intro hact
    show 0 ≤ (tcpRead s.cnt (s.socket.take n)).1.toInt ∧
      (tcpRead s.cnt (s.socket.take n)).1.toInt ≤
        (h.receive s.socket n (tcpRead s.cnt (s.socket.take n)).2).received.length ∧
      (tcpRead s.cnt (s.socket.take n)).1.toInt < 50
    rw [hcount]
    split_ifs with hfifty
    · simp
    · have hwas : h.activated = true := by
        simpa [record, Provenance.receive, hcount, hfifty] using hact
      exact hI.counted_read hn hle hwas hfifty
  · show ∀ x ∈ (h.receive s.socket n (tcpRead s.cnt (s.socket.take n)).2).received, Signal x
    cases (tcpRead s.cnt (s.socket.take n)).2 with
    | true => simp [Provenance.receive]
    | false => simpa [Provenance.receive] using hreceived
  · show ∀ g ∈ (h.receive s.socket n (tcpRead s.cnt (s.socket.take n)).2).gaps,
      50 ≤ g.length ∧ ∀ x ∈ g, Signal x
    rw [hcount]
    intro g hg
    split_ifs at hg with hfifty
    · simp only [Provenance.receive, Bool.true_and] at hg
      split_ifs at hg with hact
      · rcases List.mem_append.mp hg with hg | hg
        · exact hI.gaps g hg
        · obtain rfl := List.mem_singleton.mp hg
          exact ⟨hI.gap_closed hn hle hact hfifty, hreceived⟩
      · exact hI.gaps g hg
    · exact hI.gaps g hg

theorem inv_step {s t : AlarmState} {e : AlarmEvent} {h : Provenance} (hI : Inv s h)
    (hstep : alarmStep s e = some t) : Inv t (record s e h) := by
  cases e with
  | echo level now =>
    obtain rfl := Option.some.inj hstep
    exact hI.echo level now
  | deviceOpen ok =>
    simp only [alarmStep] at hstep
    cases ok <;> split_ifs at hstep <;> obtain rfl := Option.some.inj hstep <;>
      exact { hI with pending := by simp }
  | deviceRead =>
    simp only [alarmStep] at hstep
    split_ifs at hstep
    obtain rfl := Option.some.inj hstep
    exact hI.deviceRead
  | socketWrite ok =>
    simp only [alarmStep] at hstep
    split at hstep
    · rename_i payload hp
      obtain rfl := Option.some.inj hstep
      exact hI.socketWrite hp ok
    · cases hstep
  | clientRead n =>
    simp only [alarmStep] at hstep
    split_ifs at hstep with hn
    obtain rfl := Option.some.inj hstep
    exact hI.clientRead hn.1 hn.2.2
  | clientReadFails =>
    obtain rfl := Option.some.inj hstep
    exact hI

/-- Between two consecutive activations the client receives at least fifty bytes; all are signals,
each from its own iteration, and each iteration had seen six near measurements in a row. -/
theorem alarm_genuine {cnt : Int32} {es : List AlarmEvent} {s : AlarmState}
    (hrun : run alarmStep (.start cnt) es = some s) :
    (∀ g ∈ (provenance cnt es).gaps, 50 ≤ g.length ∧
      ∀ x ∈ g, x.1 = ULTRA_SIG ∧ 5 < x.2.ultraCnt ∧
        x.2.recent.length = 6 ∧ ∀ d ∈ x.2.recent, d < 15) ∧
      ((provenance cnt es).gaps.flatten.map fun x => x.2.iteration).Nodup := by
  have hI : Inv s (provenance cnt es) :=
    history_induction (I := Inv) (inv_start cnt) (fun _ e _ _ hI he => inv_step (e := e) hI he)
      hrun
  refine ⟨hI.gaps, ?_⟩
  have hsub : ((provenance cnt es).gaps.flatten.map Prod.snd).Sublist
      (provenance cnt es).origins := by
    simp [Provenance.origins]
  have hlt := (hI.ordered.sublist hsub).map Origin.iteration fun _ _ h => h
  rw [List.map_map] at hlt
  exact hlt.imp fun h => Nat.ne_of_lt h

/-- Six near echoes, then fifty-one signals that the client reads one by one. -/
def nearObstacle : List AlarmEvent :=
  (List.replicate 6 [.echo true ⟨0, 0⟩, .echo false ⟨0, 580⟩]).flatten ++ [.deviceOpen true] ++
    (List.replicate 51 [.deviceRead, .socketWrite true]).flatten ++
    List.replicate 51 (.clientRead 1)

theorem alarm_genuine_nearObstacle : (provenance 49 nearObstacle).gaps.length = 1 ∧
    ∀ g ∈ (provenance 49 nearObstacle).gaps, 50 ≤ g.length := by
  have hrun : ∃ s, run alarmStep (.start 49) nearObstacle = some s :=
    Option.isSome_iff_exists.mp (by decide +kernel)
  obtain ⟨s, hs⟩ := hrun
  exact ⟨by decide +kernel, fun g hg => ((alarm_genuine hs).1 g hg).1⟩

end MdsBlackbox.Link.AlarmLink
