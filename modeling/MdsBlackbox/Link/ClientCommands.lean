/- module: MdsBlackbox/Link/ClientCommands
   source: CLIENT/rc_client/rc_client.c, SERVER/rc_server/rc_server.c, SERVER/nfsroot/etc/inittab
   digest: What becomes of the commands of each remote control, process by process. -/

import MdsBlackbox.Link.Clients

set_option autoImplicit false
set_option relaxedAutoImplicit false

namespace MdsBlackbox.Link.ClientCommands

open MdsBlackbox.Lib.Transition
open MdsBlackbox.Lib.Sampling
open MdsBlackbox.Client.Remote
open MdsBlackbox.Server.PwmDev
open MdsBlackbox.Server.CarRefinement
open MdsBlackbox.Server.Led
open MdsBlackbox.Server.LedFailure
open MdsBlackbox.Server.BoardSteps
open MdsBlackbox.Server.Restarts
open MdsBlackbox.Server.BoardCar
open MdsBlackbox.Link.Clients

/-! One connection for each process. -/

def accepts : ServiceEvent → Bool
  | .accept _ => true
  | _ => false

/-- How many connections the living process has yet to accept. -/
def free (s : Board) : Nat := if s.stage = .starting then 1 else 0

theorem free_step {hasLed : Bool} {s t : Board} {e : BoardEvent}
    (h : boardStep hasLed s e = some t) (he : e ≠ .respawn) :
    (if e = .startUp .connected then 1 else 0) + free t ≤ free s := by
  cases boardStep_inv h with
  | connect hstage => simp [free, hstage]
  | refuse r hstage hr => simp [free, Board.leave, hr]
  | exit e m _ _ _ => simp [free, Board.leave]
  | exitSensor _ _ => simp [free, Board.ultraExit, Board.leave]
  | brokenPipe _ _ => simp [free, Board.ultraExit, Board.leave]
  | respawn _ => exact absurd rfl he
  | _ => simp [free]

theorem accepts_step {hasLed : Bool} {s t : Service} {e : ServiceEvent}
    (h : serviceStep hasLed s e = some t) (he : e ≠ .board .respawn) :
    (accepts e).toNat + free t.board ≤ free s.board := by
  cases serviceStep_inv h with
  | connect _ => exact (Nat.zero_add _).le
  | beside i x y _ => exact (Nat.zero_add _).le
  | press i x y l k _ _ => exact (Nat.zero_add _).le
  | accept i l u _ _ _ hu => simpa [accepts] using free_step hu nofun
  | read i n b l u _ _ _ _ hu => simpa [accepts] using free_step hu nofun
  | board e u hinternal hu =>
    have hother : e ≠ .startUp .connected := by
      rintro rfl
      cases hinternal
    rw [settle_board]
    simpa [accepts, hother] using free_step hu fun hrespawn => he (congrArg _ hrespawn)

theorem accepts_run {hasLed : Bool} {s t : Service} {p : List ServiceEvent}
    (hrun : run (serviceStep hasLed) s p = some t) (hp : .board .respawn ∉ p) :
    p.countP accepts + free t.board ≤ free s.board := by
  induction p generalizing s with
  | nil =>
    obtain rfl : s = t := Option.some.inj hrun
    exact (Nat.zero_add _).le
  | cons e p ih =>
    obtain ⟨m, hm, hrest⟩ := run_cons_eq_some.mp hrun
    rw [List.mem_cons, not_or] at hp
    have hfirst := accepts_step hm (Ne.symm hp.1)
    have hnext := ih hrest hp.2
    have hcount : (e :: p).countP accepts = p.countP accepts + (accepts e).toNat := by
      rw [List.countP_cons]
      cases accepts e <;> rfl
    omega

/-- Bytes come from accepted connections, and none is accepted twice. -/
structure Accepted (es : List ServiceEvent) (s : Service) : Prop where
  current : ∀ i, s.current = some i → .accept i ∈ es
  served : ∀ c ∈ s.served, .accept c.1 ∈ es
  waiting : ∀ i, (∀ l, s.lines[i]? = some l → l.stage = .waiting) → .accept i ∉ es
  once : ∀ i, es.count (.accept i) ≤ 1

theorem accepted_boot (pins : Pins) (l : LedDev) : Accepted [] (.boot pins l) where
  current := fun _ h => by cases h
  served := fun _ h => by cases h
  waiting := fun _ _ => List.not_mem_nil
  once := fun _ => Nat.zero_le _

theorem stage_set {s : Service} {i : Nat} {l k : Line} (hl : s.lines[i]? = some l)
    (hk : k.stage = .waiting → l.stage = .waiting) (j : Nat) (m : Line)
    (hm : s.lines[j]? = some m) :
    ∃ n, (s.lines.set i k)[j]? = some n ∧ (n.stage = .waiting → m.stage = .waiting) := by
  have hlt := (List.getElem?_eq_some_iff.mp hl).1
  by_cases hij : i = j
  · subst hij
    obtain rfl : l = m := Option.some.inj (hl.symm.trans hm)
    exact ⟨k, by simp [hlt], hk⟩
  · exact ⟨m, by simpa [List.getElem?_set_ne hij] using hm, id⟩

theorem stage_step {hasLed : Bool} {s t : Service} {e : ServiceEvent}
    (hstep : serviceStep hasLed s e = some t) (j : Nat) (m : Line) (hm : s.lines[j]? = some m) :
    ∃ n, t.lines[j]? = some n ∧ (n.stage = .waiting → m.stage = .waiting) := by
  cases serviceStep_inv hstep with
  | connect _ =>
    have hlt := (List.getElem?_eq_some_iff.mp hm).1
    exact ⟨m, by simpa [List.getElem?_append_left hlt] using hm, id⟩
  | beside i x y _ => exact ⟨m, hm, id⟩
  | press i x y l k hl _ => exact stage_set hl (by exact id) j m hm
  | accept i l u hl _ _ _ => exact stage_set hl (by simp) j m hm
  | read i n b l u hl _ _ _ _ => exact stage_set hl (by exact id) j m hm
  | board e u _ _ =>
    unfold Service.settle
    split_ifs
    · exact ⟨{ m with stage := .reset }, by simp [hm], nofun⟩
    · exact ⟨m, hm, id⟩

theorem accepted_step {hasLed : Bool} {es : List ServiceEvent} {s t : Service} {e : ServiceEvent}
    (h : Accepted es s) (hstep : serviceStep hasLed s e = some t) : Accepted (es ++ [e]) t := by
  have hcurrent : ∀ i, s.current = some i → .accept i ∈ es ++ [e] :=
    fun i hi => List.mem_append_left _ (h.current i hi)
  have hserved : ∀ c ∈ s.served, .accept c.1 ∈ es ++ [e] :=
    fun c hc => List.mem_append_left _ (h.served c hc)
  have hwaits : ∀ i, (∀ l, t.lines[i]? = some l → l.stage = .waiting) → .accept i ∉ es := by
    refine fun i hi => h.waiting i fun l hl => ?_
    obtain ⟨m, hm, hback⟩ := stage_step hstep i l hl
    exact hback (hi m hm)
  have hother : (∀ i, e ≠ .accept i) → (∀ i, t.current = some i → .accept i ∈ es ++ [e]) →
      (∀ c ∈ t.served, .accept c.1 ∈ es ++ [e]) → Accepted (es ++ [e]) t := fun he hc hs => by
    refine ⟨hc, hs, fun i hi => ?_, fun i => ?_⟩
    · rw [List.mem_append, not_or, List.mem_singleton]
      exact ⟨hwaits i hi, Ne.symm (he i)⟩
    · rw [List.count_append, List.count_singleton, if_neg (by simpa using he i)]
      exact h.once i
  cases serviceStep_inv hstep with
  | connect _ => exact hother nofun hcurrent hserved
  | beside i x y _ => exact hother nofun hcurrent hserved
  | press i x y l k _ _ => exact hother nofun hcurrent hserved
  | accept i l u hl hwaiting _ _ =>
    have hfirst : .accept i ∉ es := h.waiting i fun m hm => by
      obtain rfl : l = m := Option.some.inj (hl.symm.trans hm)
      exact hwaiting
    have hlt := (List.getElem?_eq_some_iff.mp hl).1
    refine ⟨fun j hj => ?_, hserved, fun j hj => ?_, fun j => ?_⟩
    · obtain rfl := Option.some.inj hj
      simp
    · have hij : i ≠ j := by
        rintro rfl
        have haccepted := hj { l with stage := .accepted } (by simp [hlt])
        cases haccepted
      rw [List.mem_append, not_or, List.mem_singleton]
      exact ⟨hwaits j hj, fun he => hij (ServiceEvent.accept.inj he).symm⟩
    · rw [List.count_append, List.count_singleton]
      by_cases hij : i = j
      · subst hij
        simp [List.count_eq_zero.mpr hfirst]
      · simpa [hij] using h.once j
  | read i n b l u _ hi _ _ _ =>
    refine hother nofun hcurrent fun c hc => ?_
    rcases List.mem_append.mp hc with hc | hc
    · exact hserved c hc
    · obtain ⟨k, _, rfl⟩ := List.mem_map.mp hc
      exact hcurrent i hi
  | board e u _ _ =>
    refine hother nofun (fun i hi => ?_) (by simpa using hserved)
    unfold Service.settle at hi
    split_ifs at hi
    exact hcurrent i hi

/-! What each process carries out. -/

/-- A process serves exactly while it has a connection. -/
def Attended (s : Service) : Prop := s.board.stage = .serving ↔ s.current ≠ none

theorem stage_internal {hasLed : Bool} {s t : Board} {e : BoardEvent} (he : internal e = true)
    (hstep : boardStep hasLed s e = some t) :
    t.stage = .gone ∨ t.stage = s.stage ∨ (s.stage = .gone ∧ t.stage = .starting) := by
  cases boardStep_inv hstep with
  | connect _ => cases he
  | refuse r _ _ => exact Or.inl rfl
  | exit e m _ _ _ => exact Or.inl rfl
  | exitSensor _ _ => exact Or.inl rfl
  | brokenPipe _ _ => exact Or.inl rfl
  | respawn hstage => exact Or.inr (Or.inr ⟨hstage, rfl⟩)
  | _ => exact Or.inr (Or.inl rfl)

theorem read_serves {hasLed : Bool} {s t : Board} {b : UInt8} (hstaged : Staged s)
    (hstep : boardStep hasLed s (.motion (.read (.data b))) = some t) :
    s.stage = .serving ∧ s.motion.main = .reading ∧ t.stage = .serving := by
  cases boardStep_inv hstep with
  | motion e m hstage hm _ =>
    cases hm with
    | readFailed r _ hr => exact absurd rfl (hr b)
    | readOther b hmain _ => exact ⟨hstage, hmain, hstage⟩
    | readCommand b cmd k hmain _ => exact ⟨hstage, hmain, hstage⟩
  | exit e m hstage hm hended =>
    have hlive := hstaged.live hstage
    cases hm with
    | readFailed r _ hr => exact absurd rfl (hr b)
    | readOther b _ _ => exact absurd hlive hended
    | readCommand b cmd k _ _ => exact absurd hlive hended

theorem attended_step {hasLed : Bool} {s t : Service} {e : ServiceEvent} (h : Attended s)
    (hstaged : Staged s.board) (hstep : serviceStep hasLed s e = some t) : Attended t := by
  unfold Attended at h ⊢
  cases serviceStep_inv hstep with
  | connect _ => exact h
  | beside i x y _ => exact h
  | press i x y l k _ _ => exact h
  | accept i l u _ _ _ hu =>
    cases boardStep_inv hu with
    | connect _ => simp
    | refuse r _ hr => exact absurd rfl hr
  | read i n b l u _ hi _ _ hu => simp [(read_serves hstaged hu).2.2, hi]
  | board e u he hu =>
    rw [settle_board]
    unfold Service.settle
    rcases stage_internal he hu with hgone | hsame | ⟨hgone, hstarts⟩
    · simp [hgone]
    · rw [hsame]
      split_ifs with hgone
      · simp [hgone]
      · exact h
    · have hnone : s.current = none := by simpa [hgone] using h
      simp [hstarts, hnone]

theorem attended_run {hasLed : Bool} {pins : Pins} {l : LedDev} {es : List ServiceEvent}
    {s : Service} (hrun : run (serviceStep hasLed) (.boot pins l) es = some s) : Attended s := by
  refine run_induction (I := fun _ => Attended) ?_ ?_ hrun
  · simp [Attended, Service.boot, Board.boot]
  · exact fun es e t u ht h hu => attended_step h (staged_run (served_run ht).1) hu

/-- The commands that were carried out, each with its connection. A process takes at most one of
those that it has read with it: the one that it was carrying out. -/
structure Dealt (o : Orders) (s : Service) (done : List (Nat × UInt8)) : Prop where
  bytes : done.map Prod.snd = o.done
  sublist : done.Sublist s.served
  next : ∀ i, s.current = some i → (done ++ o.current.toList.map fun b => (i, b)).Sublist s.served
  current : ∀ i, s.current = some i → s.servedOf i = bytesOf done i ++ o.current.toList
  others : ∀ i, s.current ≠ some i → ∃ missing : List UInt8, missing.length ≤ 1 ∧
    s.servedOf i = bytesOf done i ++ missing

theorem length_toList_le (b : Option UInt8) : b.toList.length ≤ 1 := by
  cases b <;> simp

theorem Dealt.missing {o : Orders} {s : Service} {done : List (Nat × UInt8)} (h : Dealt o s done)
    (i : Nat) : ∃ missing : List UInt8, missing.length ≤ 1 ∧
      s.servedOf i = bytesOf done i ++ missing := by
  by_cases hi : s.current = some i
  · exact ⟨_, length_toList_le _, h.current i hi⟩
  · exact h.others i hi

theorem Dealt.settle {o : Orders} {s : Service} {done : List (Nat × UInt8)} (h : Dealt o s done) :
    Dealt o s.settle done := by
  unfold Service.settle
  split_ifs
  · exact ⟨h.bytes, h.sublist, nofun, nofun, fun i _ => h.missing i⟩
  · exact h

theorem boardOrder_internal {hasLed : Bool} {s t : Board} {e : BoardEvent} {o : Orders}
    (he : internal e = true) (hcarries : s.stage = .serving → Carries s.motion o)
    (hstep : boardStep hasLed s e = some t) (hrespawn : e ≠ .respawn) :
    boardOrder s e o = o ∨ s.stage = .serving ∧
      boardOrder s e o = { o with done := o.done ++ o.current.toList, current := none } := by
  cases boardStep_inv hstep with
  | motion e m hstage hm _ =>
    rcases ordersStep_cases (hcarries hstage) hm with ⟨b, hb, _⟩ | ⟨_, ho | ho⟩
    · cases (command_internal he).symm.trans hb
    · exact Or.inl ho
    · exact Or.inr ⟨hstage, ho⟩
  | exit e m hstage hm _ =>
    rcases ordersStep_cases (hcarries hstage) hm with ⟨b, hb, _⟩ | ⟨_, ho | ho⟩
    · cases (command_internal he).symm.trans hb
    · exact Or.inl ho
    · exact Or.inr ⟨hstage, ho⟩
  | respawn _ => exact absurd rfl hrespawn
  | _ => exact Or.inl rfl

theorem Dealt.sameServed {o : Orders} {s t : Service} {done : List (Nat × UInt8)}
    (h : Dealt o s done) (hserved : t.served = s.served) (hcurrent : t.current = s.current) :
    Dealt o t done := by
  obtain ⟨hbytes, hsublist, hnext, hone, hothers⟩ := h
  unfold Service.servedOf at hone hothers
  rw [← hserved] at hsublist hnext hone hothers
  rw [← hcurrent] at hnext hone hothers
  exact ⟨hbytes, hsublist, hnext, hone, hothers⟩

theorem bytesOf_eq_nil {cs : List (Nat × UInt8)} {i : Nat} (h : ∀ c ∈ cs, c.1 < i) :
    bytesOf cs i = [] := by
  have hnone : cs.filter (fun c => c.1 = i) = [] :=
    List.filter_eq_nil_iff.mpr fun c hc hci => by
      have hlt := h c hc
      have heq : c.1 = i := by simpa using hci
      omega
  rw [bytesOf, hnone, List.map_nil]

theorem Dealt.accept {o : Orders} {s : Service} {done : List (Nat × UInt8)} (h : Dealt o s done)
    (ho : o.current = none) {i : Nat} (hlater : ∀ c ∈ s.served, c.1 < i) (lines : List Line)
    (t : Board) : Dealt o { s with lines := lines, current := some i, board := t } done := by
  refine ⟨h.bytes, h.sublist, fun j _ => ?_, fun j hj => ?_, fun j _ => h.missing j⟩
  · rw [ho, Option.toList_none, List.map_nil, List.append_nil]
    exact h.sublist
  · obtain rfl := Option.some.inj hj
    rw [ho, Option.toList_none, List.append_nil, bytesOf_eq_nil fun c hc =>
      hlater c (h.sublist.subset hc)]
    exact bytesOf_eq_nil hlater

theorem boardOrder_read (s : Board) (b : UInt8) {o : Orders} (ho : o.current = none) :
    (boardOrder s (.motion (.read (.data b))) o).done = o.done ∧
      (boardOrder s (.motion (.read (.data b))) o).current = commandOf b := by
  simp only [boardOrder, Orders.step, Orders.read, commandOf, command]
  split_ifs
  · exact ⟨rfl, ho⟩
  · exact ⟨rfl, rfl⟩

theorem Dealt.read {o : Orders} {s : Service} {done : List (Nat × UInt8)} (h : Dealt o s done)
    {i : Nat} (hi : s.current = some i) (ho : o.current = none) (b : UInt8) (lines : List Line)
    (t : Board) : Dealt (boardOrder s.board (.motion (.read (.data b))) o) { s with
      lines := lines
      board := t
      served := s.served ++ (commandOf b).toList.map fun b => (i, b) } done := by
  obtain ⟨hdone, hcurrent⟩ := boardOrder_read s.board b ho
  refine ⟨h.bytes.trans hdone.symm, h.sublist.trans (List.sublist_append_left _ _), fun j hj => ?_,
    fun j hj => ?_, fun j hj => ?_⟩
  · obtain rfl : i = j := Option.some.inj (hi.symm.trans hj)
    rw [hcurrent]
    exact h.sublist.append_right _
  · obtain rfl : i = j := Option.some.inj (hi.symm.trans hj)
    have hone := h.current i hi
    rw [ho, Option.toList_none, List.append_nil] at hone
    rw [Service.servedOf, bytesOf_append, if_pos rfl, hcurrent]
    exact congrArg (· ++ _) hone
  · have hij : i ≠ j := fun hij => hj (hij ▸ hi)
    rw [Service.servedOf, bytesOf_append, if_neg hij, List.append_nil]
    exact h.others j hj

theorem Dealt.board {hasLed : Bool} {o : Orders} {s : Service} {done : List (Nat × UInt8)}
    (h : Dealt o s done) (hattended : Attended s) {e : BoardEvent} (he : internal e = true)
    (hcarries : s.board.stage = .serving → Carries s.board.motion o) {t : Board}
    (hstep : boardStep hasLed s.board e = some t) :
    ∃ done, Dealt (boardOrder s.board e o) (Service.settle { s with board := t }) done := by
  by_cases hrespawn : e = .respawn
  · subst hrespawn
    cases boardStep_inv hstep with
    | respawn hgone =>
      have hnone : s.current = none := by simpa [Attended, hgone] using hattended
      have hnobody : ∀ i, s.current ≠ some i := by simp [hnone]
      exact ⟨done, Dealt.settle ⟨h.bytes, h.sublist, fun i hi => absurd hi (hnobody i),
        fun i hi => absurd hi (hnobody i), fun i _ => h.missing i⟩⟩
  · rcases boardOrder_internal he hcarries hstep hrespawn with ho | ⟨hserves, ho⟩
    · rw [ho]
      exact ⟨done, Dealt.settle (h.sameServed rfl rfl)⟩
    · obtain ⟨i, hi⟩ := Option.ne_none_iff_exists'.mp (hattended.mp hserves)
      refine ⟨done ++ o.current.toList.map fun b => (i, b), Dealt.settle ?_⟩
      rw [ho]
      refine ⟨?_, h.next i hi, fun j hj => ?_, fun j hj => ?_, fun j hj => ?_⟩
      · rw [List.map_append, List.map_map, h.bytes]
        exact congrArg _ (List.map_id _)
      · obtain rfl : i = j := Option.some.inj (hi.symm.trans hj)
        simpa using h.next i hi
      · obtain rfl : i = j := Option.some.inj (hi.symm.trans hj)
        rw [bytesOf_append, if_pos rfl, Option.toList_none, List.append_nil]
        exact h.current i hi
      · have hij : i ≠ j := fun hij => hj (hij ▸ hi)
        rw [bytesOf_append, if_neg hij, List.append_nil]
        exact h.others j hj

theorem connect_starting {hasLed : Bool} {s t : Board}
    (hstep : boardStep hasLed s (.startUp .connected) = some t) : s.stage = .starting := by
  cases boardStep_inv hstep with
  | connect hstage => exact hstage
  | refuse r hstage _ => exact hstage

theorem dealt_run {hasLed : Bool} {pins : Pins} {l : LedDev} {es : List ServiceEvent}
    {s : Service} (hrun : run (serviceStep hasLed) (.boot pins l) es = some s) :
    ∃ done, Dealt (orders hasLed pins l (es.filterMap ServiceEvent.onBoard)) s done := by
  refine run_induction (I := fun es s =>
    ∃ done, Dealt (orders hasLed pins l (es.filterMap ServiceEvent.onBoard)) s done) ?_ ?_ hrun
  · exact ⟨[], rfl, List.Sublist.refl _, nofun, nofun, fun _ _ => ⟨[], Nat.zero_le _, rfl⟩⟩
  intro es e t u ht ⟨done, h⟩ hu
  obtain ⟨hboard, _⟩ := served_run ht
  have hturn : InTurn t :=
    invariant (inTurn_boot pins l) (fun _ _ _ h he => inTurn_step h he) ht
  have hattended := attended_run ht
  have hkept := kept_run hboard
  have horders : ∀ {f v}, boardStep hasLed t.board f = some v →
      orders hasLed pins l (es.filterMap ServiceEvent.onBoard ++ [f]) = boardOrder t.board f
        (orders hasLed pins l (es.filterMap ServiceEvent.onBoard)) :=
    fun hv => history_concat hboard hv
  rw [onBoard_concat]
  have hsame : e.onBoard = none → t.served = u.served → t.current = u.current →
      ∃ done, Dealt (orders hasLed pins l (es.filterMap ServiceEvent.onBoard ++ e.onBoard.toList))
        u done := fun he hs hc => by
    rw [he, Option.toList_none, List.append_nil]
    exact ⟨done, h.sameServed hs.symm hc.symm⟩
  cases serviceStep_inv hu with
  | connect _ => exact hsame rfl rfl rfl
  | beside i x y _ => exact hsame rfl rfl rfl
  | press i x y l k _ _ => exact hsame rfl rfl rfl
  | accept i l v hl hwaits _ hv =>
    refine ⟨done, ?_⟩
    rw [ServiceEvent.onBoard, Option.toList_some, horders hv]
    exact h.accept (hkept.starting (connect_starting hv)) (hturn.waiting i l hl hwaits).2 _ v
  | read i n b l v _ hi _ _ hv =>
    refine ⟨done, ?_⟩
    rw [ServiceEvent.onBoard, Option.toList_some, horders hv]
    obtain ⟨hstage, hmain, _⟩ := read_serves (staged_run hboard) hv
    have hcarries := hkept.serving hstage
    simp only [Carries, hmain] at hcarries
    exact h.read hi hcarries b _ v
  | board e v he hv =>
    rw [ServiceEvent.onBoard, Option.toList_some, horders hv]
    exact h.board hattended he hkept.serving hv

/-- However many remote controls connect, press, wait and are reset, and however many processes of
the server follow each other, with every interleaving of their threads: between two restarts at
most one connection is accepted, and none twice; the commands read from a client are those of its
presses at whose frame a read of its own stream started, and none for a client that is never
accepted; those of two clients never mix; and the pins always spell the car that the commands make
of which at most the last one of each connection is missing. -/
theorem clients_apart {hasLed : Bool} {pins : Pins} {l : LedDev} {es : List ServiceEvent}
    {s : Service} (hrun : run (serviceStep hasLed) (.boot pins l) es = some s) :
    (∀ p, p <:+: es → .board .respawn ∉ p → p.countP accepts ≤ 1) ∧
      (∀ i, es.count (.accept i) ≤ 1) ∧
      (∀ i, s.servedOf i =
          (pick (fun j => 30 * j ∈ offsetsOf i es) (pressesOf i es)).map Button.text ∧
        (.accept i ∉ es → s.servedOf i = [])) ∧
      (s.served.map Prod.fst).Pairwise (· ≤ ·) ∧
      ∃ done : List (Nat × UInt8), done.Sublist s.served ∧
        (∀ i, ∃ missing : List UInt8, missing.length ≤ 1 ∧
          s.servedOf i = bytesOf done i ++ missing) ∧
        s.board.motion.server.dev.pins = encode ((done.map Prod.snd).foldl act parked) := by
  have hturn : InTurn s :=
    invariant (inTurn_boot pins l) (fun _ _ _ h he => inTurn_step h he) hrun
  have haccepted : Accepted es s :=
    run_induction (I := Accepted) (accepted_boot pins l)
      (fun _ _ _ _ _ h he => accepted_step h he) hrun
  have hkept := kept_run (served_run hrun).1
  obtain ⟨done, hdealt⟩ := dealt_run hrun
  refine ⟨?_, haccepted.once, fun i => ⟨?_, fun hnever => ?_⟩, hturn.sorted, done, hdealt.sublist,
    hdealt.missing, ?_⟩
  · rintro p ⟨pre, post, rfl⟩ hp
    obtain ⟨m, hm, _⟩ := run_append_eq_some.mp hrun
    obtain ⟨n, _, hp'⟩ := run_append_eq_some.mp hm
    have hle := accepts_run hp' hp
    have hfree : free n.board ≤ 1 := by
      unfold free
      split_ifs <;> decide
    omega
  · have hpipe : run textFraming.step ⟨[], []⟩ (es.filterMap (ServiceEvent.onLine i)) =
        some (s.pipe i) :=
      run_simulates (f := fun s => s.pipe i) (g := ServiceEvent.onLine i) (I := fun _ => True)
        trivial (fun _ _ _ _ _ => trivial) (fun _ _ _ v _ h hv => (line_step i h).1 v hv)
        (fun _ _ _ _ h hv => (line_step i h).2 hv) hrun
    exact textFraming.heard_eq hpipe
  · have hnone : s.served.filter (fun c => c.1 = i) = [] := by
      refine List.filter_eq_nil_iff.mpr fun c hc hci => hnever ?_
      obtain rfl : c.1 = i := by simpa using hci
      exact haccepted.served c hc
    rw [Service.servedOf, bytesOf, hnone, List.map_nil]
  · rw [hdealt.bytes]
    exact hkept.pins

/-- Two clients press, the second one twice while it waits; the first is served until its process
ends, which resets both, and the next process serves a third one. -/
def threeClients : List ServiceEvent :=
  [.connect, .connect, .click 0 300 50, .accept 0, .click 1 300 150, .read 0 20 '1'.toUInt8,
    .click 1 300 50, .board (.motion (.openPwm .granted)), .board (.motion .pwmIoctl),
    .board (.motion .pwmIoctl), .board (.motion .pwmIoctl), .board (.motion .closePwm),
    .board (.motion .create), .read 0 10 0, .board (.motion .create),
    .board (.motion (.read .closed)), .board (.motion .exitMain), .board .respawn, .connect,
    .click 1 300 200, .accept 2, .click 2 300 200, .read 2 20 '2'.toUInt8]

theorem clients_apart_threeClients :
    ∃ s, run (serviceStep true) (.boot Pins.low ledInit) threeClients = some s ∧
      s.servedOf 0 = ['1'.toUInt8] ∧ s.servedOf 1 = [] ∧ s.servedOf 2 = ['2'.toUInt8] := by
  have hrun : ∃ s, run (serviceStep true) (.boot Pins.low ledInit) threeClients = some s :=
    ⟨_, rfl⟩
  obtain ⟨s, hs⟩ := hrun
  obtain ⟨_, _, hclients, _, _⟩ := clients_apart hs
  refine ⟨s, hs, (hclients 0).1.trans ?_, (hclients 1).2 ?_, (hclients 2).1.trans ?_⟩
  · decide
  · decide
  · decide

end MdsBlackbox.Link.ClientCommands
