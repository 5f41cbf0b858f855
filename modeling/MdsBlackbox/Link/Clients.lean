/- module: MdsBlackbox/Link/Clients
   source: CLIENT/rc_client/rc_client.c, SERVER/rc_server/rc_server.c, SERVER/nfsroot/etc/inittab
   digest: Many remote controls, served by one process of the server after the other. -/

import MdsBlackbox.Client.Remote
import MdsBlackbox.Lib.Sampling
import MdsBlackbox.Server.BoardCar

set_option autoImplicit false
set_option relaxedAutoImplicit false

namespace MdsBlackbox.Link.Clients

open MdsBlackbox.Lib.Transition
open MdsBlackbox.Lib.Sampling
open MdsBlackbox.Client.Remote
open MdsBlackbox.Server.PwmDev
open MdsBlackbox.Server.CarRefinement
open MdsBlackbox.Server.Led
open MdsBlackbox.Server.BoardSteps
open MdsBlackbox.Server.BoardCar (command commandsRead commandsRead_concat)

/-- A connection waits in the queue of `listen` for its `accept`; the end of the process resets
it, accepted or not. -/
inductive LineStage
  | waiting
  | accepted
  | reset
  deriving DecidableEq

/-- The bytes that a client has written and no process has read, and how its connection stands. -/
structure Line where
  socket : List UInt8
  stage : LineStage
  deriving DecidableEq

/-- The connections in the order in which they were made, the one that the living process has
accepted, the board, and all command bytes read so far, with the connection of each. -/
structure Service where
  lines : List Line
  current : Option Nat
  board : Board
  served : List (Nat × UInt8)

def Service.boot (pins : Pins) (l : LedDev) : Service := ⟨[], none, .boot pins l, []⟩

inductive ServiceEvent
  | connect
  | click (i : Nat) (x y : Nat)
  | accept (i : Nat)
  | read (i n : Nat) (b : UInt8)
  | board (e : BoardEvent)
  deriving DecidableEq

/-- With the process go its connection and its listening socket, and with that all that wait. -/
def Service.settle (s : Service) : Service :=
  if s.board.stage = .gone then
    { s with lines := s.lines.map fun l => { l with stage := .reset }, current := none }
  else s

/-- The steps of the board that take nothing from a client. -/
def internal : BoardEvent → Bool
  | .startUp .connected | .motion (.read (.data _)) => false
  | _ => true

/-- The byte, if it is that of a command. -/
def commandOf (b : UInt8) : Option UInt8 := command (.motion (.read (.data b)))

/-- A client connects once and ignores what its `write` returns. A process accepts once, the oldest
connection that waits, and reads from no other. -/
def serviceStep (hasLed : Bool) (s : Service) : ServiceEvent → Option Service
  | .connect =>
    if s.board.stage ≠ .gone then some { s with lines := s.lines ++ [⟨[], .waiting⟩] } else none
  | .click i x y =>
    match s.lines[i]? with
    | none => none
    | some l =>
      match touched x y with
      | none => some s
      | some k => some { s with lines := s.lines.set i { l with socket := l.socket ++ frame k } }
  | .accept i =>
    match s.lines[i]? with
    | none => none
    | some l =>
      if l.stage = .waiting ∧ ∀ m ∈ s.lines.take i, m.stage ≠ .waiting then
        (boardStep hasLed s.board (.startUp .connected)).map fun t => { s with
          lines := s.lines.set i { l with stage := .accepted }, current := some i, board := t }
      else none
  | .read i n b =>
    match s.lines[i]? with
    | none => none
    | some l =>
      if s.current = some i ∧ l.socket[0]? = some b ∧ 1 ≤ n ∧ n ≤ 20 ∧ n ≤ l.socket.length then
        (boardStep hasLed s.board (.motion (.read (.data b)))).map fun t => { s with
          lines := s.lines.set i { l with socket := l.socket.drop n }
          board := t
          served := s.served ++ (commandOf b).toList.map fun b => (i, b) }
      else none
  | .board e =>
    if internal e then
      (boardStep hasLed s.board e).map fun t => Service.settle { s with board := t }
    else none

/-! What one step does. -/

inductive ServiceStep (hasLed : Bool) (s : Service) : ServiceEvent → Service → Prop
  | connect (hopen : s.board.stage ≠ .gone) :
    ServiceStep hasLed s .connect { s with lines := s.lines ++ [⟨[], .waiting⟩] }
  | beside (i x y : Nat) (hk : touched x y = none) : ServiceStep hasLed s (.click i x y) s
  | press (i x y : Nat) (l : Line) (k : Button) (hl : s.lines[i]? = some l)
    (hk : touched x y = some k) :
    ServiceStep hasLed s (.click i x y)
      { s with lines := s.lines.set i { l with socket := l.socket ++ frame k } }
  | accept (i : Nat) (l : Line) (t : Board) (hl : s.lines[i]? = some l)
    (hwaits : l.stage = .waiting) (holdest : ∀ m ∈ s.lines.take i, m.stage ≠ .waiting)
    (ht : boardStep hasLed s.board (.startUp .connected) = some t) :
    ServiceStep hasLed s (.accept i) { s with
      lines := s.lines.set i { l with stage := .accepted }, current := some i, board := t }
  | read (i n : Nat) (b : UInt8) (l : Line) (t : Board) (hl : s.lines[i]? = some l)
    (hcurrent : s.current = some i) (hb : l.socket[0]? = some b)
    (hn : 1 ≤ n ∧ n ≤ 20 ∧ n ≤ l.socket.length)
    (ht : boardStep hasLed s.board (.motion (.read (.data b))) = some t) :
    ServiceStep hasLed s (.read i n b) { s with
      lines := s.lines.set i { l with socket := l.socket.drop n }
      board := t
      served := s.served ++ (commandOf b).toList.map fun b => (i, b) }
  | board (e : BoardEvent) (t : Board) (he : internal e = true)
    (ht : boardStep hasLed s.board e = some t) :
    ServiceStep hasLed s (.board e) (Service.settle { s with board := t })

theorem serviceStep_inv {hasLed : Bool} {s t : Service} {e : ServiceEvent}
    (h : serviceStep hasLed s e = some t) : ServiceStep hasLed s e t := by
  cases e with
  | connect =>
    simp only [serviceStep] at h
    split_ifs at h with hopen
    obtain rfl := Option.some.inj h
    exact .connect hopen
  | click i x y =>
    simp only [serviceStep] at h
    cases hl : s.lines[i]? with
    | none => simp [hl] at h
    | some l =>
      cases hk : touched x y with
      | none =>
        simp only [hl, hk, Option.some.injEq] at h
        subst h
        exact .beside i x y hk
      | some k =>
        simp only [hl, hk, Option.some.injEq] at h
        subst h
        exact .press i x y l k hl hk
  | accept i =>
    simp only [serviceStep] at h
    cases hl : s.lines[i]? with
    | none => simp [hl] at h
    | some l =>
      simp only [hl] at h
      split_ifs at h with hcond
      obtain ⟨u, hu, rfl⟩ := Option.map_eq_some_iff.mp h
      exact .accept i l u hl hcond.1 hcond.2 hu
  | read i n b =>
    simp only [serviceStep] at h
    cases hl : s.lines[i]? with
    | none => simp [hl] at h
    | some l =>
      simp only [hl] at h
      split_ifs at h with hcond
      obtain ⟨u, hu, rfl⟩ := Option.map_eq_some_iff.mp h
      exact .read i n b l u hl hcond.1 hcond.2.1 hcond.2.2 hu
  | board e =>
    simp only [serviceStep] at h
    split_ifs at h with he
    obtain ⟨u, hu, rfl⟩ := Option.map_eq_some_iff.mp h
    exact .board e u he hu

@[simp] theorem settle_served (s : Service) : s.settle.served = s.served := by
  unfold Service.settle
  split_ifs <;> rfl

@[simp] theorem settle_board (s : Service) : s.settle.board = s.board := by
  unfold Service.settle
  split_ifs <;> rfl

/-! The board by itself. -/

def ServiceEvent.onBoard : ServiceEvent → Option BoardEvent
  | .accept _ => some (.startUp .connected)
  | .read _ _ b => some (.motion (.read (.data b)))
  | .board e => some e
  | .connect | .click _ _ _ => none

theorem command_internal {e : BoardEvent} (he : internal e = true) : command e = none := by
  unfold internal at he
  split at he
  · cases he
  · cases he
  · rename_i hread
    unfold command
    split
    · exact absurd rfl (hread _)
    · rfl

theorem onBoard_concat (es : List ServiceEvent) (e : ServiceEvent) :
    (es ++ [e]).filterMap ServiceEvent.onBoard =
      es.filterMap ServiceEvent.onBoard ++ e.onBoard.toList := by
  cases h : e.onBoard <;> simp [List.filterMap_append, h]

theorem served_run {hasLed : Bool} {pins : Pins} {l : LedDev} {es : List ServiceEvent} {s : Service}
    (hrun : run (serviceStep hasLed) (.boot pins l) es = some s) :
    run (boardStep hasLed) (.boot pins l) (es.filterMap ServiceEvent.onBoard) = some s.board ∧
      commandsRead (es.filterMap ServiceEvent.onBoard) = s.served.map Prod.snd := by
  refine run_induction (I := fun es s =>
    run (boardStep hasLed) (.boot pins l) (es.filterMap ServiceEvent.onBoard) = some s.board ∧
      commandsRead (es.filterMap ServiceEvent.onBoard) = s.served.map Prod.snd)
    ⟨rfl, rfl⟩ ?_ hrun
  intro es e t u _ ⟨hboard, hserved⟩ hu
  rw [onBoard_concat]
  cases serviceStep_inv hu with
  | connect _ => simpa [ServiceEvent.onBoard] using ⟨hboard, hserved⟩
  | beside i x y _ => simpa [ServiceEvent.onBoard] using ⟨hboard, hserved⟩
  | press i x y l k _ _ => simpa [ServiceEvent.onBoard] using ⟨hboard, hserved⟩
  | accept i l v _ _ _ hv =>
    refine ⟨run_concat_eq_some.mpr ⟨_, hboard, hv⟩, (commandsRead_concat _ _).trans ?_⟩
    simpa [command] using hserved
  | read i n b l v _ _ _ _ hv =>
    refine ⟨run_concat_eq_some.mpr ⟨_, hboard, hv⟩, (commandsRead_concat _ _).trans ?_⟩
    rw [hserved, List.map_append, List.map_map]
    exact congrArg _ (List.map_id _).symm
  | board e v he hv =>
    rw [settle_board, settle_served]
    refine ⟨run_concat_eq_some.mpr ⟨_, hboard, hv⟩, (commandsRead_concat _ _).trans ?_⟩
    simpa [command_internal he] using hserved

/-! One connection at a time. -/

theorem commandOf_head (k : Button) : (frame k)[0]?.bind commandOf = some k.text := by
  cases k <;> rfl

theorem commandOf_padding (k : Button) (j : Nat) (hj : 0 < j) :
    (frame k)[j]?.bind commandOf = none := by
  cases hb : (frame k)[j]? with
  | none => rfl
  | some b =>
    obtain rfl : b = 0 := frame_padding k hj hb
    rfl

/-- The same frames, with the command bytes themselves as what is heard. -/
def textFraming : Framing Button UInt8 UInt8 where
  size := MAXLINE
  cap := 20
  frame := frame
  sample := commandOf
  meaning := Button.text
  size_pos := Nat.succ_pos 29
  frame_length := length_frame
  head_sample := commandOf_head
  padding_silent := commandOf_padding

/-- Those of the bytes that came over connection `i`. -/
def bytesOf (cs : List (Nat × UInt8)) (i : Nat) : List UInt8 :=
  (cs.filter fun c => c.1 = i).map Prod.snd

/-- The command bytes that were read from client `i`. -/
def Service.servedOf (s : Service) (i : Nat) : List UInt8 := bytesOf s.served i

def Service.socketOf (s : Service) (i : Nat) : List UInt8 := (s.lines[i]?).elim [] Line.socket

def Service.pipe (s : Service) (i : Nat) : Pipe UInt8 UInt8 := ⟨s.socketOf i, s.servedOf i⟩

def ServiceEvent.onLine (i : Nat) : ServiceEvent → Option (Event Button)
  | .click j x y => if j = i then (touched x y).map .write else none
  | .read j n _ => if j = i then some (.read n) else none
  | .connect | .accept _ | .board _ => none

/-- The buttons that client `i` presses, and the offsets in its stream at which reads start. -/
def pressesOf (i : Nat) (es : List ServiceEvent) : List Button :=
  written (es.filterMap (ServiceEvent.onLine i))

def offsetsOf (i : Nat) (es : List ServiceEvent) : List Nat :=
  readStarts 0 (es.filterMap (ServiceEvent.onLine i))

theorem settle_pipe (s : Service) (i : Nat) : s.settle.pipe i = s.pipe i := by
  unfold Service.settle
  split_ifs
  · simp only [Service.pipe, Service.servedOf, Service.socketOf, List.getElem?_map]
    cases s.lines[i]? <;> rfl
  · rfl

theorem socketOf_set {s : Service} {i j : Nat} {l m : Line} (hl : s.lines[j]? = some l) :
    ((s.lines.set j m)[i]?).elim [] Line.socket = if j = i then m.socket else s.socketOf i := by
  by_cases hji : j = i
  · subst hji
    have hlt := (List.getElem?_eq_some_iff.mp hl).1
    simp [hlt]
  · simp [List.getElem?_set_ne hji, hji, Service.socketOf]

theorem bytesOf_append (cs : List (Nat × UInt8)) (i j : Nat) (b : Option UInt8) :
    bytesOf (cs ++ b.toList.map fun b => (j, b)) i =
      bytesOf cs i ++ if j = i then b.toList else [] := by
  rw [bytesOf, List.filter_append, List.map_append]
  cases b with
  | none => simp [bytesOf]
  | some b => by_cases hji : j = i <;> simp [bytesOf, hji]

theorem line_step {hasLed : Bool} {s t : Service} {e : ServiceEvent} (i : Nat)
    (h : serviceStep hasLed s e = some t) :
    (∀ v, e.onLine i = some v → textFraming.step (s.pipe i) v = some (t.pipe i)) ∧
      (e.onLine i = none → t.pipe i = s.pipe i) := by
  cases serviceStep_inv h with
  | connect _ =>
    refine ⟨fun _ hv => (by cases hv), fun _ => ?_⟩
    simp only [Service.pipe, Service.servedOf, Service.socketOf, Pipe.mk.injEq, and_true]
    by_cases hi : i < s.lines.length
    · rw [List.getElem?_append_left hi]
    · have hle : s.lines.length ≤ i := Nat.le_of_not_lt hi
      rw [List.getElem?_append_right hle, List.getElem?_eq_none hle]
      cases i - s.lines.length <;> rfl
  | beside j x y hk => exact ⟨by simp [ServiceEvent.onLine, hk], fun _ => rfl⟩
  | press j x y l k hl hk =>
    by_cases hji : j = i
    · subst hji
      refine ⟨fun v hv => ?_, by simp [ServiceEvent.onLine, hk]⟩
      obtain rfl : Event.write k = v := by simpa [ServiceEvent.onLine, hk] using hv
      simp only [Framing.step, Service.pipe, Service.socketOf, socketOf_set hl, if_true, hl]
      rfl
    · refine ⟨by simp [ServiceEvent.onLine, hji], fun _ => ?_⟩
      simp only [Service.pipe, Service.socketOf, socketOf_set hl, if_neg hji]
      rfl
  | accept j l _ hl _ _ _ =>
    refine ⟨fun _ hv => (by cases hv), fun _ => ?_⟩
    simp only [Service.pipe, Service.socketOf, socketOf_set hl]
    split_ifs with hji
    · subst hji
      simp [hl, Service.servedOf]
    · rfl
  | read j n b l _ hl _ hb hn _ =>
    by_cases hji : j = i
    · subst hji
      refine ⟨fun v hv => ?_, by simp [ServiceEvent.onLine]⟩
      obtain rfl : Event.read n = v := by simpa [ServiceEvent.onLine] using hv
      have hfits : 1 ≤ n ∧ n ≤ textFraming.cap ∧ n ≤ (s.socketOf j).length := by
        simp only [Service.socketOf, hl]
        exact hn
      simp only [Framing.step, Service.pipe, hfits, and_self, if_true]
      simp only [Service.socketOf, Service.servedOf, socketOf_set hl, bytesOf_append, if_true, hl,
        Option.elim_some, hb]
      rfl
    · refine ⟨by simp [ServiceEvent.onLine, hji], fun _ => ?_⟩
      simp only [Service.pipe, Service.socketOf, Service.servedOf, socketOf_set hl, bytesOf_append,
        if_neg hji, List.append_nil]
  | board e _ _ _ =>
    rw [settle_pipe]
    exact ⟨fun _ hv => (by cases hv), fun _ => rfl⟩

/-! The connections one after the other. -/

/-- The bytes come connection by connection, none of them is from a connection that still waits,
and those who wait came after the one that is served. -/
structure InTurn (s : Service) : Prop where
  sorted : (s.served.map Prod.fst).Pairwise (· ≤ ·)
  current : ∀ i, s.current = some i → i < s.lines.length ∧ ∀ c ∈ s.served, c.1 ≤ i
  known : ∀ c ∈ s.served, c.1 < s.lines.length
  waiting : ∀ j l, s.lines[j]? = some l → l.stage = .waiting →
    (∀ i, s.current = some i → i < j) ∧ ∀ c ∈ s.served, c.1 < j

theorem inTurn_boot (pins : Pins) (l : LedDev) : InTurn (.boot pins l) where
  sorted := .nil
  current := fun _ h => by cases h
  known := fun _ h => by cases h
  waiting := fun _ _ h => by cases h

theorem InTurn.settle {s : Service} (h : InTurn s) : InTurn s.settle := by
  unfold Service.settle
  split_ifs
  · refine ⟨h.sorted, nofun, ?_, fun j l hl hwaits => ?_⟩
    · simpa using h.known
    · obtain ⟨m, _, rfl⟩ := Option.map_eq_some_iff.mp (List.getElem?_map ▸ hl)
      cases hwaits
  · exact h

theorem InTurn.setSocket {s : Service} (h : InTurn s) {i : Nat} {l : Line}
    (hl : s.lines[i]? = some l) (socket : List UInt8) :
    InTurn { s with lines := s.lines.set i { l with socket := socket } } := by
  refine ⟨h.sorted, by simpa using h.current, by simpa using h.known, fun j m hm hwaits => ?_⟩
  by_cases hij : i = j
  · subst hij
    have hlt := (List.getElem?_eq_some_iff.mp hl).1
    obtain rfl : { l with socket := socket } = m := by simpa [hlt] using hm
    exact h.waiting i l hl hwaits
  · exact h.waiting j m (by simpa [List.getElem?_set_ne hij] using hm) hwaits

theorem InTurn.serve {s : Service} (h : InTurn s) {i : Nat} (hcurrent : s.current = some i)
    (t : Board) (b : Option UInt8) :
    InTurn { s with board := t, served := s.served ++ b.toList.map fun b => (i, b) } := by
  obtain ⟨hlt, hle⟩ := h.current i hcurrent
  have hnew : ∀ c ∈ b.toList.map fun b => (i, b), c.1 = i := by simp
  refine ⟨?_, fun j hj => ?_, fun c hc => ?_, fun j l hl hwaits => ?_⟩
  · rw [List.map_append, List.pairwise_append]
    refine ⟨h.sorted, by cases b <;> simp, ?_⟩
    intro a ha b hb
    obtain ⟨c, hc, rfl⟩ := List.mem_map.mp ha
    obtain ⟨d, hd, rfl⟩ := List.mem_map.mp hb
    rw [hnew d hd]
    exact hle c hc
  · obtain rfl : i = j := Option.some.inj (hcurrent.symm.trans hj)
    refine ⟨hlt, fun c hc => ?_⟩
    rcases List.mem_append.mp hc with hc | hc
    · exact hle c hc
    · exact (hnew c hc).le
  · rcases List.mem_append.mp hc with hc | hc
    · exact h.known c hc
    · exact hnew c hc ▸ hlt
  · obtain ⟨hbefore, hserved⟩ := h.waiting j l hl hwaits
    refine ⟨hbefore, fun c hc => ?_⟩
    rcases List.mem_append.mp hc with hc | hc
    · exact hserved c hc
    · exact hnew c hc ▸ hbefore i hcurrent

theorem inTurn_step {hasLed : Bool} {s t : Service} {e : ServiceEvent} (h : InTurn s)
    (hstep : serviceStep hasLed s e = some t) : InTurn t := by
  cases serviceStep_inv hstep with
  | connect _ =>
    refine ⟨h.sorted, fun i hi => ?_, fun c hc => ?_, fun j l hl hwaits => ?_⟩
    · obtain ⟨hlt, hle⟩ := h.current i hi
      exact ⟨by simp; omega, hle⟩
    · have hlt := h.known c hc
      simp
      omega
    · by_cases hj : j < s.lines.length
      · exact h.waiting j l (by simpa [List.getElem?_append_left hj] using hl) hwaits
      · have hle : s.lines.length ≤ j := Nat.le_of_not_lt hj
        exact ⟨fun i hi => (h.current i hi).1.trans_le hle,
          fun c hc => (h.known c hc).trans_le hle⟩
  | beside i x y _ => exact h
  | press i x y l k hl _ => exact h.setSocket hl _
  | accept i l _ hl hwaits holdest _ =>
    have hlt := (List.getElem?_eq_some_iff.mp hl).1
    refine ⟨h.sorted, fun j hj => ?_, by simpa using h.known, fun j m hm hwaiting => ?_⟩
    · obtain rfl := Option.some.inj hj
      exact ⟨by simpa using hlt, fun c hc => ((h.waiting i l hl hwaits).2 c hc).le⟩
    · by_cases hij : i = j
      · subst hij
        obtain rfl : { l with stage := .accepted } = m := by simpa [hlt] using hm
        cases hwaiting
      · have hm' : s.lines[j]? = some m := by simpa [List.getElem?_set_ne hij] using hm
        refine ⟨fun i' hi' => ?_, (h.waiting j m hm' hwaiting).2⟩
        obtain rfl := Option.some.inj hi'
        -- all before the oldest that waits have been accepted or reset
        by_contra hge
        have hji : j < i := by omega
        refine holdest m (List.mem_of_getElem? (i := j) ?_) hwaiting
        rw [List.getElem?_take_of_lt hji, hm']
  | read i n b l t hl hcurrent _ _ _ => exact (h.setSocket hl _).serve hcurrent t _
  | board e t _ _ => exact InTurn.settle ⟨h.sorted, h.current, h.known, h.waiting⟩

end MdsBlackbox.Link.Clients
