import Riot.Can.IsotpHalves

/-!
# A transfer over the bus

Two channels, each with its thread's queue and its driver, on a bus that loses and
reorders nothing: when a frame is transmitted, the other node finds it in its
queue and the sending node the confirmation. The threads, the drivers and the gap
timer act in any order. The receiving half may lag behind by all the consecutive
frames of a block; what is in the queues then is known, and every action brings
the transfer nearer to its end.
-/

namespace Riot.Can

open Riot.Lib List Option

/-! ## Two nodes on a bus -/

/-- Messages in the queue of the thread. -/
inductive Msg where
  | sendFrame
  | frame (f : CanFrame)
  | conf (handle : Int)
  | txTimeout

def Msg.event : Msg → Event
  | .sendFrame => .sendFrame
  | .frame f => .rxIndication f
  | .conf handle => .txConfirmation handle
  | .txTimeout => .txTimeout

/-- A channel with the queue of its thread and the frames its driver has not transmitted yet, with
their handles. -/
structure Node where
  chan : Isotp
  inbox : List Msg
  driver : List (CanFrame × Int)

/-- The frames handed to the driver between `c` and `c'`. -/
def newFrames (c c' : Isotp) : List CanFrame :=
  c'.rx.out.drop c.rx.out.length ++ c'.tx.out.drop c.tx.out.length

/-- The thread takes a message from its queue. -/
def Node.thread (env : Env) (n : Node) : Option Node :=
  match n.inbox with
  | [] => none
  | m :: rest =>
    (isotpStep n.chan (env, m.event)).map fun c =>
      ⟨c, rest, n.driver ++ (newFrames n.chan c).map (·, env.send)⟩

/-- The timer of the sending half expires in the gap between two consecutive frames. -/
def Node.gap (env : Env) (n : Node) : Option Node :=
  if n.chan.tx.con.state = .sendingNextCf then
    (isotpStep n.chan (env, .txTimer)).map fun c => ⟨c, n.inbox ++ [.txTimeout], n.driver⟩
  else none

def Node.post (n : Node) (m : Msg) : Node := { n with inbox := n.inbox ++ [m] }

/-- The two nodes; `a` is the sending one. -/
structure Net where
  a : Node
  b : Node

inductive NetEvent where
  | threadA (env : Env)
  | threadB (env : Env)
  | transmitA
  | transmitB
  | gapA (env : Env)
  | gapB (env : Env)

def netStep (s : Net) : NetEvent → Option Net
  | .threadA env => (s.a.thread env).map fun a => { s with a := a }
  | .threadB env => (s.b.thread env).map fun b => { s with b := b }
  | .transmitA =>
    match s.a.driver with
    | [] => none
    | (f, h) :: rest =>
      some ⟨{ s.a with driver := rest, inbox := s.a.inbox ++ [.conf h] }, s.b.post (.frame f)⟩
  | .transmitB =>
    match s.b.driver with
    | [] => none
    | (f, h) :: rest =>
      some ⟨s.a.post (.frame f), { s.b with driver := rest, inbox := s.b.inbox ++ [.conf h] }⟩
  | .gapA env => (s.a.gap env).map fun a => { s with a := a }
  | .gapB env => (s.b.gap env).map fun b => { s with b := b }

/-- What a thread asks for while it handles a message is granted. -/
def NetOk (_ : Net) : NetEvent → Prop
  | .threadA env | .threadB env => Granted env
  | .transmitA | .transmitB | .gapA _ | .gapB _ => True

section Nodes

variable {n : Node} {env : Env} {m : Msg} {rest : List Msg} {c : Isotp} {f : CanFrame}

theorem thread_nil (h : n.inbox = []) : n.thread env = none := by
  unfold Node.thread
  rw [h]

theorem thread_cons (h : n.inbox = m :: rest) (hstep : isotpStep n.chan (env, m.event) = some c) :
    n.thread env = some ⟨c, rest, n.driver ++ (newFrames n.chan c).map (·, env.send)⟩ := by
  unfold Node.thread
  rw [h]
  dsimp only
  rw [hstep]
  rfl

variable {c c' : Isotp}

theorem newFrames_none (hrx : c'.rx.out = c.rx.out) (htx : c'.tx.out = c.tx.out) : newFrames c c' = [] := by
  unfold newFrames
  rw [hrx, htx, drop_length, drop_length, nil_append]

theorem newFrames_tx (hrx : c'.rx = c.rx) (htx : c'.tx.out = c.tx.out ++ [f]) : newFrames c c' = [f] := by
  unfold newFrames
  rw [hrx, htx, drop_length, drop_left, nil_append]

theorem newFrames_rx (htx : c'.tx = c.tx) (hrx : c'.rx.out = c.rx.out ++ [f]) : newFrames c c' = [f] := by
  unfold newFrames
  rw [hrx, htx, drop_length, drop_left, append_nil]

theorem gap_none (h : n.chan.tx.con.state ≠ .sendingNextCf) : n.gap env = none := if_neg h

end Nodes

section Actions

variable {s s' : Net} {env : Env} {n : Node} {f : CanFrame} {h : Int}

theorem threadA_eq (hstep : netStep s (.threadA env) = some s') (hn : s.a.thread env = some n) :
    s' = { s with a := n } := by
  unfold netStep at hstep
  dsimp only at hstep
  rw [hn] at hstep
  exact (some.inj hstep).symm

theorem threadB_eq (hstep : netStep s (.threadB env) = some s') (hn : s.b.thread env = some n) :
    s' = { s with b := n } := by
  unfold netStep at hstep
  dsimp only at hstep
  rw [hn] at hstep
  exact (some.inj hstep).symm

theorem transmitA_eq (hstep : netStep s .transmitA = some s') (hd : s.a.driver = [(f, h)]) :
    s' = ⟨{ s.a with driver := [], inbox := s.a.inbox ++ [.conf h] }, s.b.post (.frame f)⟩ := by
  unfold netStep at hstep
  rw [hd] at hstep
  exact (some.inj hstep).symm

theorem transmitB_eq (hstep : netStep s .transmitB = some s') (hd : s.b.driver = [(f, h)]) :
    s' = ⟨s.a.post (.frame f), { s.b with driver := [], inbox := s.b.inbox ++ [.conf h] }⟩ := by
  unfold netStep at hstep
  rw [hd] at hstep
  exact (some.inj hstep).symm

theorem gapA_eq (hstep : netStep s (.gapA env) = some s') (hn : s.a.gap env = some n) :
    s' = { s with a := n } := by
  unfold netStep at hstep
  dsimp only at hstep
  rw [hn] at hstep
  exact (some.inj hstep).symm

theorem not_threadA (hi : s.a.inbox = []) : netStep s (.threadA env) ≠ some s' := by
  unfold netStep
  dsimp only
  rw [thread_nil hi]
  exact nofun

theorem not_threadB (hi : s.b.inbox = []) : netStep s (.threadB env) ≠ some s' := by
  unfold netStep
  dsimp only
  rw [thread_nil hi]
  exact nofun

theorem not_transmitA (hd : s.a.driver = []) : netStep s .transmitA ≠ some s' := by
  unfold netStep
  rw [hd]
  exact nofun

theorem not_transmitB (hd : s.b.driver = []) : netStep s .transmitB ≠ some s' := by
  unfold netStep
  rw [hd]
  exact nofun

theorem not_gapA (hg : s.a.chan.tx.con.state ≠ .sendingNextCf) : netStep s (.gapA env) ≠ some s' := by
  unfold netStep
  dsimp only
  rw [gap_none hg]
  exact nofun

theorem not_gapB (hg : s.b.chan.tx.con.state = .idle) : netStep s (.gapB env) ≠ some s' := by
  unfold netStep
  dsimp only
  rw [gap_none (by rw [hg]; decide)]
  exact nofun

/-- With nothing at the drivers and no gap timer running, only the threads can act. -/
theorem threads_only {e : NetEvent} (hda : s.a.driver = []) (hdb : s.b.driver = [])
    (hga : s.a.chan.tx.con.state ≠ .sendingNextCf) (hgb : s.b.chan.tx.con.state = .idle)
    (hstep : netStep s e = some s') : (∃ env, e = .threadA env) ∨ ∃ env, e = .threadB env := by
  cases e with
  | threadA env => exact .inl ⟨env, rfl⟩
  | threadB env => exact .inr ⟨env, rfl⟩
  | transmitA => exact absurd hstep (not_transmitA hda)
  | transmitB => exact absurd hstep (not_transmitB hdb)
  | gapA env => exact absurd hstep (not_gapA hga)
  | gapB env => exact absurd hstep (not_gapB hgb)

end Actions

namespace Transfer

variable (T : Transfer)

/-! ## Where the two nodes are -/

/-- Consecutive frames in their order, from the one after the `i`-th on. -/
inductive Cfs : Nat → List CanFrame → Prop where
  | nil (i : Nat) : Cfs i []
  | cons {i : Nat} {f : CanFrame} {fs : List CanFrame} : T.IsCf i f → Cfs (i + 1) fs → Cfs i (f :: fs)

/-- The `j`-th consecutive frame is followed by the next one, with no flow control between. -/
def Inside (j : Nat) : Prop := T.pos j < T.msg.length ∧ ¬T.BlockEnd j

/-- The sending node waits, or will once it has seen the confirmation of its last frame; `more` is
what comes after that. -/
def Awaits (a : Node) (j : Nat) (more : List Msg) : Prop :=
  a.driver = [] ∧
    ((∃ h, 1 ≤ h ∧ a.inbox = .conf h :: more ∧ a.chan.tx.con.txHandle = h ∧ T.TxSent a.chan j) ∨
      (a.inbox = more ∧ T.TxWait a.chan j))

/-- The receiving node waits for consecutive frames, or will once it has seen the confirmation of
its flow control frame. -/
def Ready (c : Isotp) (pre : List Msg) : Prop :=
  pre = [] ∧ c.rx.con.state = .waitCf ∨
    ∃ h, 1 ≤ h ∧ pre = [.conf h] ∧ c.rx.con.txHandle = h ∧
      (c.rx.con.state = .sendingFc ∨ c.rx.con.state = .waitCf)

/-- The receiving node has, or has in its queue, the first `j` consecutive frames; those in the
queue are followed by `more`. -/
def Lags (b : Node) (j : Nat) (more : List Msg) : Prop :=
  b.driver = [] ∧ ∃ i fs pre, T.RxAt b.chan i ∧ b.inbox = pre ++ fs.map Msg.frame ++ more ∧
    T.Cfs i fs ∧ i + fs.length = j ∧ (∀ k, i < k → k ≤ j → T.Inside k) ∧ Ready b.chan pre

/-- The receiving node is idle, with `more` in its queue. -/
def Idle (b : Node) (more : List Msg) : Prop :=
  b.driver = [] ∧ b.inbox = more ∧ T.RxIdle b.chan

/-- The receiving node has handed over the message. -/
def Received (b : Node) : Prop := b.driver = [] ∧ b.inbox = [] ∧ T.RxDone b.chan

/-- The sending node has seen its transfer through. -/
def Sent (a : Node) : Prop := a.driver = [] ∧ a.inbox = [] ∧ T.TxDone a.chan

/-- Bytes left after `j` consecutive frames, eight actions for each. -/
def left (j : Nat) : Nat := 8 * (T.msg.length - T.pos j)

/-- **The transfer as a whole**, with a bound on what is still to happen. -/
inductive Joint : Nat → Net → Prop where
  | start {s : Net} : s.a.driver = [] → s.a.inbox = [.sendFrame] → T.TxStart s.a.chan →
      T.Idle s.b [] → Joint (8 * T.msg.length + 8) s
  /-- The single frame is with the driver. -/
  | sfOut {s : Net} {f : CanFrame} {h : Int} : 1 ≤ h → s.a.driver = [(f, h)] → s.a.inbox = [] →
      s.a.chan.tx.con.txHandle = h → T.TxSf s.a.chan → T.IsSf f → T.Idle s.b [] → Joint 3 s
  /-- The single frame has been transmitted. -/
  | sfIn {s : Net} :
      (s.a.driver = [] ∧ ∃ h, 1 ≤ h ∧ s.a.inbox = [.conf h] ∧ s.a.chan.tx.con.txHandle = h ∧
        T.TxSf s.a.chan) ∨ T.Sent s.a →
      (∃ f, T.IsSf f ∧ T.Idle s.b [.frame f]) ∨ T.Received s.b →
      Joint (s.a.inbox.length + s.b.inbox.length) s
  /-- The first frame is with the driver. -/
  | ffOut {s : Net} {f : CanFrame} {h : Int} : 1 ≤ h → s.a.driver = [(f, h)] → s.a.inbox = [] →
      s.a.chan.tx.con.txHandle = h → T.TxSent s.a.chan 0 → T.IsFf f → T.pos 0 < T.msg.length →
      T.Idle s.b [] → Joint (T.left 0 + 6) s
  /-- The first frame has been transmitted, and not been received. -/
  | ffIn {s : Net} {f : CanFrame} : T.Awaits s.a 0 [] → T.IsFf f → T.pos 0 < T.msg.length →
      T.Idle s.b [.frame f] → Joint (T.left 0 + s.a.inbox.length + 4) s
  /-- A consecutive frame is with the driver. -/
  | cfOut {s : Net} {j : Nat} {f : CanFrame} {h : Int} : 1 ≤ h → s.a.driver = [(f, h)] →
      s.a.inbox = [] → s.a.chan.tx.con.txHandle = h → T.TxSent s.a.chan (j + 1) → T.IsCf j f →
      T.pos j < T.msg.length → T.Lags s.b j [] → Joint (T.left (j + 1) + s.b.inbox.length + 6) s
  /-- It has been transmitted, inside a block. -/
  | cfIn {s : Net} {j : Nat} {h : Int} : 1 ≤ h → s.a.driver = [] → s.a.inbox = [.conf h] →
      s.a.chan.tx.con.txHandle = h → T.TxSent s.a.chan j → j ≠ 0 → T.Inside j → T.Lags s.b j [] →
      Joint (T.left j + s.b.inbox.length + 1) s
  /-- The gap timer runs. -/
  | gap {s : Net} {j : Nat} : s.a.driver = [] → s.a.inbox = [] → T.TxNext s.a.chan j →
      s.a.chan.tx.timer.isSome → T.pos j < T.msg.length → T.Lags s.b j [] →
      Joint (T.left j + s.b.inbox.length) s
  /-- The gap is over. -/
  | due {s : Net} {j m : Nat} : s.a.driver = [] → s.a.inbox = [.txTimeout] → T.TxNext s.a.chan j →
      0 < s.a.chan.tx.fired → s.a.chan.tx.timer = none → T.pos j < T.msg.length → T.Lags s.b j [] →
      m + 1 = T.left j + s.b.inbox.length → Joint m s
  /-- The last frame of a block has been transmitted, and not been received. -/
  | blockIn {s : Net} {j : Nat} {f : CanFrame} : T.Awaits s.a (j + 1) [] → T.IsCf j f →
      T.pos j < T.msg.length → T.pos (j + 1) < T.msg.length → T.BlockEnd (j + 1) →
      T.Lags s.b j [.frame f] → Joint (T.left (j + 1) + s.a.inbox.length + s.b.inbox.length + 3) s
  /-- The flow control frame is with the driver. -/
  | fcOut {s : Net} {j : Nat} {f : CanFrame} {h : Int} : T.Awaits s.a j [] → j = 0 ∨ T.BlockEnd j →
      T.pos j < T.msg.length → 1 ≤ h → s.b.driver = [(f, h)] → s.b.inbox = [] →
      s.b.chan.rx.con.txHandle = h → T.RxAt s.b.chan j →
      s.b.chan.rx.con.state = .sendingFc ∨ s.b.chan.rx.con.state = .waitCf → T.IsFc f →
      Joint (T.left j + s.a.inbox.length + 3) s
  /-- The flow control frame has been transmitted, and not been received. -/
  | fcIn {s : Net} {j : Nat} {f : CanFrame} : T.Awaits s.a j [.frame f] → j = 0 ∨ T.BlockEnd j →
      T.pos j < T.msg.length → T.IsFc f → T.Lags s.b j [] →
      Joint (T.left j + s.a.inbox.length + s.b.inbox.length) s
  /-- The last consecutive frame has been transmitted. -/
  | last {s : Net} {j : Nat} : T.msg.length ≤ T.pos (j + 1) →
      (s.a.driver = [] ∧ ∃ h, 1 ≤ h ∧ s.a.inbox = [.conf h] ∧ s.a.chan.tx.con.txHandle = h ∧
        T.TxSent s.a.chan (j + 1)) ∨ T.Sent s.a →
      (∃ f, T.IsCf j f ∧ T.pos j < T.msg.length ∧ T.Lags s.b j [.frame f]) ∨ T.Received s.b →
      Joint (s.a.inbox.length + s.b.inbox.length) s

variable {T} {a b : Node} {env : Env} {j : Nat} {f : CanFrame} {more : List Msg}

/-! ## What is in the queues -/

theorem Cfs.snoc {i : Nat} {fs : List CanFrame} (h : T.Cfs i fs) (hf : T.IsCf (i + fs.length) f) :
    T.Cfs i (fs ++ [f]) := by
  induction h with
  | nil i => exact .cons hf (.nil _)
  | cons hg hfs ih =>
    refine .cons hg (ih ?_)
    rwa [add_assoc, add_comm 1]

theorem Lags.push (h : T.Lags b j []) (hf : T.IsCf j f) (hinside : T.Inside (j + 1)) :
    T.Lags (b.post (.frame f)) (j + 1) [] := by
  obtain ⟨hdriver, i, fs, pre, hat, hinbox, hcfs, hlen, hall, hready⟩ := h
  refine ⟨hdriver, i, fs ++ [f], pre, hat, ?_, hcfs.snoc (hlen ▸ hf), ?_, ?_, hready⟩
  · show b.inbox ++ [.frame f] = _
    rw [hinbox]
    simp
  · rw [length_append, length_singleton]
    omega
  · intro k hk hkj
    by_cases hlast : k = j + 1
    · exact hlast ▸ hinside
    · exact hall k hk (by omega)

theorem Lags.hold {m : Msg} (h : T.Lags b j []) : T.Lags (b.post m) j [m] := by
  obtain ⟨hdriver, i, fs, pre, hat, hinbox, hrest⟩ := h
  refine ⟨hdriver, i, fs, pre, hat, ?_, hrest⟩
  show b.inbox ++ [m] = _
  rw [hinbox, append_nil]

theorem Lags.thread (h : T.Lags b j more) :
    (b.inbox = more ∧ T.RxAt b.chan j ∧ b.chan.rx.con.state = .waitCf) ∨
      b.inbox ≠ [] ∧ ∀ env, Granted env → ∃ b', b.thread env = some b' ∧ T.Lags b' j more ∧
        b'.inbox.length + 1 = b.inbox.length := by
  obtain ⟨hdriver, i, fs, pre, hat, hinbox, hcfs, hlen, hall, hready⟩ := h
  cases hready with
  | inr hconf =>
    obtain ⟨h, hpos, rfl, hhandle, hstate⟩ := hconf
    refine .inr ⟨by rw [hinbox]; simp, fun env _ => ?_⟩
    obtain ⟨c', hstep, htx, hout, hat', hstate'⟩ := @step_fcConf _ env _ _ _ hat hhandle hpos hstate
    rw [@thread_cons _ _ (.conf h) (fs.map Msg.frame ++ more) _ (by rw [hinbox]; simp) hstep,
      newFrames_none hout (by rw [htx]), hdriver]
    refine ⟨_, rfl, ⟨rfl, i, fs, [], hat', by simp, hcfs, hlen, hall, .inl ⟨rfl, hstate'⟩⟩, ?_⟩
    rw [hinbox]
    simp
  | inl hwait =>
    obtain ⟨rfl, hstate⟩ := hwait
    cases hcfs with
    | nil =>
      exact .inl ⟨by rw [hinbox]; rfl, hlen ▸ hat, hstate⟩
    | @cons i f fs hf hfs =>
      rw [length_cons] at hlen
      refine .inr ⟨by rw [hinbox]; simp, fun env henv => ?_⟩
      have hmore : T.pos (i + 1) < T.msg.length := (hall (i + 1) (by omega) (by omega)).1
      have hmore' : T.pos i < T.msg.length := by
        have := T.pos_succ i
        omega
      obtain ⟨c', hstep, htx, -, hnext, hquiet, -⟩ := step_cf hat hstate hf hmore' henv
      obtain ⟨hat', hstate'⟩ := hnext hmore
      have hout := hquiet hmore (hall (i + 1) (by omega) (by omega)).2
      rw [@thread_cons _ _ (.frame f) (fs.map Msg.frame ++ more) _ (by rw [hinbox]; simp) hstep,
        newFrames_none hout (by rw [htx]), hdriver]
      refine ⟨_, rfl, ⟨rfl, i + 1, fs, [], hat', by simp, hfs, by omega, ?_, .inl ⟨rfl, hstate'⟩⟩,
        ?_⟩
      · exact fun k hk hkj => hall k (by omega) hkj
      · rw [hinbox]
        simp

/-- Either the sending node waits, or its thread takes the confirmation it lacks. -/
theorem Awaits.thread (h : T.Awaits a j more) (hlt : T.pos j < T.msg.length) (hblock : j = 0 ∨ T.BlockEnd j) :
    (a.inbox = more ∧ T.TxWait a.chan j) ∨
      a.inbox ≠ [] ∧ ∀ env, Granted env → ∃ a', a.thread env = some a' ∧ T.Awaits a' j more ∧
        a'.inbox.length + 1 = a.inbox.length := by
  obtain ⟨hdriver, hconf | hwait⟩ := h
  · obtain ⟨h, hpos, hinbox, hhandle, hsent⟩ := hconf
    refine .inr ⟨by rw [hinbox]; simp, fun env henv => ?_⟩
    obtain ⟨c', hstep, hrx, hout, -, hwait, -⟩ := step_conf hsent hhandle hpos henv (fun _ => hlt)
    rw [thread_cons hinbox hstep, newFrames_none (by rw [hrx]) hout, hdriver]
    refine ⟨_, rfl, ⟨rfl, .inr ⟨rfl, hwait hlt hblock⟩⟩, ?_⟩
    rw [hinbox]
    rfl
  · exact .inl hwait

theorem TxSent.not_gap {c : Isotp} (h : T.TxSent c j) : c.tx.con.state ≠ .sendingNextCf := by
  rw [h.state]
  split
  · decide
  · decide

theorem Awaits.not_gap (h : T.Awaits a j more) : a.chan.tx.con.state ≠ .sendingNextCf := by
  obtain ⟨-, ⟨_, -, -, -, hsent⟩ | ⟨-, hwait⟩⟩ := h
  · exact hsent.not_gap
  · rw [hwait.state]
    decide

theorem Awaits.post (h : T.Awaits a j []) (m : Msg) : T.Awaits (a.post m) j [m] := by
  obtain ⟨hdriver, ⟨h, hpos, hinbox, hrest⟩ | ⟨hinbox, hwait⟩⟩ := h
  · refine ⟨hdriver, .inl ⟨h, hpos, ?_, hrest⟩⟩
    show a.inbox ++ [m] = _
    rw [hinbox]
    rfl
  · refine ⟨hdriver, .inr ⟨?_, hwait⟩⟩
    show a.inbox ++ [m] = _
    rw [hinbox]
    rfl

theorem Lags.quiet (h : T.Lags b j more) : b.chan.tx.con.state = .idle := by
  obtain ⟨-, _, _, _, hat, -⟩ := h
  exact hat.quiet

theorem Lags.driver (h : T.Lags b j more) : b.driver = [] := h.1

/-- The thread of the lagging node, with nothing behind the frames in its queue. -/
theorem Lags.stepB {s s' : Net} (h : T.Lags s.b j []) (hok : NetOk s (.threadB env))
    (hstep : netStep s (.threadB env) = some s') :
    ∃ b', s' = { s with b := b' } ∧ T.Lags b' j [] ∧ b'.inbox.length + 1 = s.b.inbox.length := by
  cases h.thread with
  | inl hnone => exact absurd hstep (not_threadB hnone.1)
  | inr hnext =>
    obtain ⟨b', hthread, h', hlen⟩ := hnext.2 env hok
    exact ⟨b', threadB_eq hstep hthread, h', hlen⟩

theorem left_succ (h : T.pos j < T.msg.length) : T.left (j + 1) + 8 ≤ T.left j := by
  have hlt := T.pos_lt_succ h
  unfold left
  omega

/-! ## What an action does -/

section Step

variable {s s' : Net} {e : NetEvent} {h : Int}

theorem start_step (hd : s.a.driver = []) (hi : s.a.inbox = [.sendFrame]) (hstart : T.TxStart s.a.chan)
    (hidle : T.Idle s.b []) (hok : NetOk s e) (hstep : netStep s e = some s') :
    ∃ m < 8 * T.msg.length + 8, T.Joint m s' := by
  have hquiet : s.a.chan.tx.con.state = .idle := (hstart.accounted.posted_idle hstart.posted).1
  obtain ⟨env, rfl⟩ | ⟨env, rfl⟩ := threads_only hd hidle.1 (by rw [hquiet]; decide) hidle.2.2.quiet hstep
  · obtain ⟨c', f, hc, hrx, hout, hhandle, hkind⟩ := step_sendFrame hstart hok
    have hthread := thread_cons hi hc
    rw [newFrames_tx hrx hout, hd] at hthread
    obtain rfl := threadA_eq hstep hthread
    cases hkind with
    | inl hsf => exact ⟨3, by omega, .sfOut hok.send rfl rfl hhandle hsf.2 hsf.1 hidle⟩
    | inr hff =>
      obtain ⟨hframe, hsent, hmore⟩ := hff
      refine ⟨_, ?_, .ffOut hok.send rfl rfl hhandle hsent hframe hmore hidle⟩
      unfold left
      omega
  · exact absurd hstep (not_threadB hidle.2.1)

variable {f : CanFrame}

theorem sfOut_step (hpos : 1 ≤ h) (hd : s.a.driver = [(f, h)]) (hi : s.a.inbox = [])
    (hhandle : s.a.chan.tx.con.txHandle = h) (hsf : T.TxSf s.a.chan) (hframe : T.IsSf f)
    (hidle : T.Idle s.b []) (hstep : netStep s e = some s') : ∃ m < 3, T.Joint m s' := by
  cases e with
  | threadA env => exact absurd hstep (not_threadA hi)
  | threadB env => exact absurd hstep (not_threadB hidle.2.1)
  | transmitA =>
    obtain rfl := transmitA_eq hstep hd
    have hconf : s.a.inbox ++ [.conf h] = [.conf h] := by rw [hi]; rfl
    have hin : s.b.inbox ++ [.frame f] = [.frame f] := by rw [hidle.2.1]; rfl
    refine ⟨_, ?_, .sfIn (.inl ⟨rfl, h, hpos, hconf, hhandle, hsf⟩)
      (.inl ⟨f, hframe, hidle.1, hin, hidle.2.2⟩)⟩
    show (s.a.inbox ++ [Msg.conf h]).length + (s.b.inbox ++ [Msg.frame f]).length < 3
    rw [hconf, hin]
    exact Nat.lt_succ_self 2
  | transmitB => exact absurd hstep (not_transmitB hidle.1)
  | gapA env => exact absurd hstep (not_gapA (by rw [hsf.state]; decide))
  | gapB env => exact absurd hstep (not_gapB hidle.2.2.quiet)

theorem sent_thread {n : Node} {env : Env} {c' : Isotp} (hd : n.driver = []) (hi : n.inbox = [.conf h])
    (hc : isotpStep n.chan (env, .txConfirmation h) = some c') (hrx : c'.rx = n.chan.rx)
    (hout : c'.tx.out = n.chan.tx.out) (hdone : T.TxDone c') :
    ∃ n', n.thread env = some n' ∧ T.Sent n' := by
  have hthread := thread_cons hi hc
  rw [newFrames_none (by rw [hrx]) hout, hd] at hthread
  exact ⟨_, hthread, rfl, rfl, hdone⟩

theorem received_thread {n : Node} {env : Env} {c' : Isotp} (hd : n.driver = [])
    (hi : n.inbox = [.frame f]) (hc : isotpStep n.chan (env, .rxIndication f) = some c')
    (htx : c'.tx = n.chan.tx) (hout : c'.rx.out = n.chan.rx.out) (hdone : T.RxDone c') :
    ∃ n', n.thread env = some n' ∧ T.Received n' := by
  have hthread := thread_cons hi hc
  rw [newFrames_none hout (by rw [htx]), hd] at hthread
  exact ⟨_, hthread, rfl, rfl, hdone⟩

theorem sfIn_step (ha : (s.a.driver = [] ∧ ∃ h, 1 ≤ h ∧ s.a.inbox = [.conf h] ∧ s.a.chan.tx.con.txHandle = h ∧
      T.TxSf s.a.chan) ∨ T.Sent s.a)
    (hb : (∃ f, T.IsSf f ∧ T.Idle s.b [.frame f]) ∨ T.Received s.b)
    (hok : NetOk s e) (hstep : netStep s e = some s') :
    ∃ m < s.a.inbox.length + s.b.inbox.length, T.Joint m s' := by
  have hda : s.a.driver = [] := ha.elim (fun h => h.1) (fun h => h.1)
  have hdb : s.b.driver = [] := hb.elim (fun ⟨_, _, h⟩ => h.1) (fun h => h.1)
  have hga : s.a.chan.tx.con.state ≠ .sendingNextCf := by
    cases ha with
    | inl hconf =>
      obtain ⟨-, _, -, -, -, hsf⟩ := hconf
      rw [hsf.state]
      decide
    | inr hsent =>
      rw [hsent.2.2.state]
      decide
  have hgb : s.b.chan.tx.con.state = .idle := hb.elim (fun ⟨_, _, h⟩ => h.2.2.quiet) (fun h => h.2.2.quiet)
  obtain ⟨env, rfl⟩ | ⟨env, rfl⟩ := threads_only hda hdb hga hgb hstep
  · cases ha with
    | inl hconf =>
      obtain ⟨hd, h, hpos, hi, hhandle, hsf⟩ := hconf
      obtain ⟨c', hc, hrx, hout, hdone⟩ := step_confSf hsf hhandle hpos hok
      obtain ⟨n, hthread, hsent⟩ := sent_thread hd hi hc hrx hout hdone
      obtain rfl := threadA_eq hstep hthread
      refine ⟨_, ?_, .sfIn (.inr hsent) hb⟩
      rw [hsent.2.1, hi]
      simp
    | inr hsent => exact absurd hstep (not_threadA hsent.2.1)
  · cases hb with
    | inl hframe =>
      obtain ⟨f, hf, hidle⟩ := hframe
      obtain ⟨c', hc, htx, hout, hdone⟩ := step_sf hidle.2.2 hf hok
      obtain ⟨n, hthread, hreceived⟩ := received_thread hidle.1 hidle.2.1 hc htx hout hdone
      obtain rfl := threadB_eq hstep hthread
      refine ⟨_, ?_, .sfIn ha (.inr hreceived)⟩
      rw [hreceived.2.1, hidle.2.1]
      simp
    | inr hreceived => exact absurd hstep (not_threadB hreceived.2.1)

theorem ffOut_step (hpos : 1 ≤ h) (hd : s.a.driver = [(f, h)]) (hi : s.a.inbox = [])
    (hhandle : s.a.chan.tx.con.txHandle = h) (hsent : T.TxSent s.a.chan 0) (hframe : T.IsFf f)
    (hmore : T.pos 0 < T.msg.length) (hidle : T.Idle s.b []) (hstep : netStep s e = some s') :
    ∃ m < T.left 0 + 6, T.Joint m s' := by
  cases e with
  | threadA env => exact absurd hstep (not_threadA hi)
  | threadB env => exact absurd hstep (not_threadB hidle.2.1)
  | transmitA =>
    obtain rfl := transmitA_eq hstep hd
    have hconf : s.a.inbox ++ [.conf h] = [.conf h] := by rw [hi]; rfl
    have hin : s.b.inbox ++ [.frame f] = [.frame f] := by rw [hidle.2.1]; rfl
    refine ⟨_, ?_, .ffIn ⟨rfl, .inl ⟨h, hpos, hconf, hhandle, hsent⟩⟩ hframe hmore ⟨hidle.1, hin, hidle.2.2⟩⟩
    show T.left 0 + (s.a.inbox ++ [Msg.conf h]).length + 4 < T.left 0 + 6
    rw [hconf, length_singleton]
    omega
  | transmitB => exact absurd hstep (not_transmitB hidle.1)
  | gapA env => exact absurd hstep (not_gapA hsent.not_gap)
  | gapB env => exact absurd hstep (not_gapB hidle.2.2.quiet)

theorem ffIn_step (ha : T.Awaits s.a 0 []) (hframe : T.IsFf f)
    (hmore : T.pos 0 < T.msg.length) (hidle : T.Idle s.b [.frame f]) (hok : NetOk s e)
    (hstep : netStep s e = some s') :
    ∃ m < T.left 0 + s.a.inbox.length + 4, T.Joint m s' := by
  obtain ⟨env, rfl⟩ | ⟨env, rfl⟩ := threads_only ha.1 hidle.1 ha.not_gap hidle.2.2.quiet hstep
  · cases ha.thread hmore (.inl rfl) with
    | inl hwait => exact absurd hstep (not_threadA hwait.1)
    | inr hconf =>
      obtain ⟨n, hthread, ha', hlen⟩ := hconf.2 env hok
      obtain rfl := threadA_eq hstep hthread
      refine ⟨_, ?_, .ffIn ha' hframe hmore hidle⟩
      dsimp only
      omega
  · obtain ⟨c', fc, hc, htx, hout, hfc, hhandle, hat, hstate⟩ := step_ff hidle.2.2 hframe hmore hok
    have hthread := thread_cons hidle.2.1 hc
    rw [newFrames_rx htx hout, hidle.1] at hthread
    obtain rfl := threadB_eq hstep hthread
    refine ⟨_, ?_, .fcOut ha (.inl rfl) hmore hok.send rfl rfl hhandle hat (.inl hstate) hfc⟩
    dsimp only
    omega

theorem cfOut_step (hpos : 1 ≤ h) (hd : s.a.driver = [(f, h)]) (hi : s.a.inbox = [])
    (hhandle : s.a.chan.tx.con.txHandle = h) (hsent : T.TxSent s.a.chan (j + 1)) (hframe : T.IsCf j f)
    (hmore : T.pos j < T.msg.length) (hlags : T.Lags s.b j []) (hok : NetOk s e)
    (hstep : netStep s e = some s') :
    ∃ m < T.left (j + 1) + s.b.inbox.length + 6, T.Joint m s' := by
  cases e with
  | threadA env => exact absurd hstep (not_threadA hi)
  | threadB env =>
    obtain ⟨b', rfl, hlags', hlen⟩ := hlags.stepB hok hstep
    refine ⟨_, ?_, .cfOut hpos hd hi hhandle hsent hframe hmore hlags'⟩
    dsimp only
    omega
  | transmitA =>
    obtain rfl := transmitA_eq hstep hd
    have hconf : s.a.inbox ++ [.conf h] = [.conf h] := by rw [hi]; rfl
    have hlen : (s.b.inbox ++ [Msg.frame f]).length = s.b.inbox.length + 1 := length_append
    by_cases hlast : T.msg.length ≤ T.pos (j + 1)
    · refine ⟨_, ?_, .last hlast (.inl ⟨rfl, h, hpos, hconf, hhandle, hsent⟩)
        (.inl ⟨f, hframe, hmore, hlags.hold⟩)⟩
      show (s.a.inbox ++ [Msg.conf h]).length + (s.b.inbox ++ [Msg.frame f]).length < _
      rw [hconf, hlen, length_singleton]
      omega
    have hlt : T.pos (j + 1) < T.msg.length := by omega
    by_cases hend : T.BlockEnd (j + 1)
    · refine ⟨_, ?_, .blockIn ⟨rfl, .inl ⟨h, hpos, hconf, hhandle, hsent⟩⟩ hframe hmore hlt hend hlags.hold⟩
      show T.left (j + 1) + (s.a.inbox ++ [Msg.conf h]).length + (s.b.inbox ++ [Msg.frame f]).length + 3 < _
      rw [hconf, hlen, length_singleton]
      omega
    · refine ⟨_, ?_, .cfIn hpos rfl hconf hhandle hsent (Nat.succ_ne_zero j) ⟨hlt, hend⟩
        (hlags.push hframe ⟨hlt, hend⟩)⟩
      show T.left (j + 1) + (s.b.inbox ++ [Msg.frame f]).length + 1 < _
      omega
  | transmitB => exact absurd hstep (not_transmitB hlags.driver)
  | gapA env => exact absurd hstep (not_gapA hsent.not_gap)
  | gapB env => exact absurd hstep (not_gapB hlags.quiet)

theorem cfIn_step (hpos : 1 ≤ h) (hd : s.a.driver = []) (hi : s.a.inbox = [.conf h])
    (hhandle : s.a.chan.tx.con.txHandle = h) (hsent : T.TxSent s.a.chan j) (hj : j ≠ 0)
    (hinside : T.Inside j) (hlags : T.Lags s.b j []) (hok : NetOk s e)
    (hstep : netStep s e = some s') :
    ∃ m < T.left j + s.b.inbox.length + 1, T.Joint m s' := by
  obtain ⟨env, rfl⟩ | ⟨env, rfl⟩ := threads_only hd hlags.driver hsent.not_gap hlags.quiet hstep
  · obtain ⟨c', hc, hrx, hout, -, -, hnext⟩ := step_conf hsent hhandle hpos hok (fun hzero => absurd hzero hj)
    obtain ⟨hgap, htimer⟩ := hnext hinside.1 hj hinside.2
    have hthread := thread_cons hi hc
    rw [newFrames_none (by rw [hrx]) hout, hd] at hthread
    obtain rfl := threadA_eq hstep hthread
    refine ⟨_, ?_, .gap rfl rfl hgap htimer hinside.1 hlags⟩
    exact Nat.lt_succ_self _
  · obtain ⟨b', rfl, hlags', hlen⟩ := hlags.stepB hok hstep
    refine ⟨_, ?_, .cfIn hpos hd hi hhandle hsent hj hinside hlags'⟩
    dsimp only
    omega

theorem gap_step (hd : s.a.driver = []) (hi : s.a.inbox = []) (hgap : T.TxNext s.a.chan j)
    (htimer : s.a.chan.tx.timer.isSome = true) (hmore : T.pos j < T.msg.length)
    (hlags : T.Lags s.b j []) (hok : NetOk s e) (hstep : netStep s e = some s') :
    ∃ m < T.left j + s.b.inbox.length, T.Joint m s' := by
  cases e with
  | threadA env => exact absurd hstep (not_threadA hi)
  | threadB env =>
    obtain ⟨b', rfl, hlags', hlen⟩ := hlags.stepB hok hstep
    refine ⟨_, ?_, .gap hd hi hgap htimer hmore hlags'⟩
    dsimp only
    omega
  | transmitA => exact absurd hstep (not_transmitA hd)
  | transmitB => exact absurd hstep (not_transmitB hlags.driver)
  | gapA env =>
    obtain ⟨c', hc, -, -, hgap', hfired, hnone⟩ := @step_txTimer _ env _ _ hgap htimer
    have hnode : s.a.gap env = some ⟨c', s.a.inbox ++ [.txTimeout], s.a.driver⟩ := by
      unfold Node.gap
      rw [if_pos hgap.state, hc]
      rfl
    obtain rfl := gapA_eq hstep hnode
    have hleft := T.left_succ hmore
    refine ⟨T.left j + s.b.inbox.length - 1, by omega, .due (j := j) hd ?_ hgap' hfired hnone hmore
      hlags ?_⟩
    · rw [hi]
      rfl
    · dsimp only
      omega
  | gapB env => exact absurd hstep (not_gapB hlags.quiet)

theorem due_step {m : Nat} (hd : s.a.driver = []) (hi : s.a.inbox = [.txTimeout])
    (hgap : T.TxNext s.a.chan j) (hfired : 0 < s.a.chan.tx.fired)
    (htimer : s.a.chan.tx.timer = none) (hmore : T.pos j < T.msg.length) (hlags : T.Lags s.b j []) (hm : m + 1 = T.left j + s.b.inbox.length) (hok : NetOk s e)
    (hstep : netStep s e = some s') : ∃ m' < m, T.Joint m' s' := by
  cases e with
  | threadA env =>
    obtain ⟨c', f, hc, hrx, hout, hhandle, hframe, hsent⟩ := step_txTimeout hgap hfired hok
    have hthread := thread_cons hi hc
    rw [newFrames_tx hrx hout, hd] at hthread
    obtain rfl := threadA_eq hstep hthread
    have hleft := T.left_succ hmore
    refine ⟨_, ?_, .cfOut hok.send rfl rfl hhandle hsent hframe hmore hlags⟩
    dsimp only
    omega
  | threadB env =>
    obtain ⟨b', rfl, hlags', hlen⟩ := hlags.stepB hok hstep
    have hleft := T.left_succ hmore
    refine ⟨m - 1, by omega, .due (j := j) hd hi hgap hfired htimer hmore hlags' ?_⟩
    dsimp only
    omega
  | transmitA => exact absurd hstep (not_transmitA hd)
  | transmitB => exact absurd hstep (not_transmitB hlags.driver)
  | gapA env =>
    -- the timer has expired already
    have hnode : s.a.gap env = none := by
      unfold Node.gap
      rw [if_pos hgap.state]
      have hstep' : isotpStep s.a.chan (env, .txTimer) = none := if_neg (by rw [htimer]; decide)
      rw [hstep']
      rfl
    unfold netStep at hstep
    dsimp only at hstep
    rw [hnode] at hstep
    exact nomatch hstep
  | gapB env => exact absurd hstep (not_gapB hlags.quiet)

theorem blockIn_step (ha : T.Awaits s.a (j + 1) []) (hframe : T.IsCf j f)
    (hmore : T.pos j < T.msg.length) (hlt : T.pos (j + 1) < T.msg.length) (hend : T.BlockEnd (j + 1))
    (hlags : T.Lags s.b j [.frame f]) (hok : NetOk s e) (hstep : netStep s e = some s') :
    ∃ m < T.left (j + 1) + s.a.inbox.length + s.b.inbox.length + 3, T.Joint m s' := by
  obtain ⟨env, rfl⟩ | ⟨env, rfl⟩ := threads_only ha.1 hlags.driver ha.not_gap hlags.quiet hstep
  · cases ha.thread hlt (.inr hend) with
    | inl hwait => exact absurd hstep (not_threadA hwait.1)
    | inr hconf =>
      obtain ⟨n, hthread, ha', hlen⟩ := hconf.2 env hok
      obtain rfl := threadA_eq hstep hthread
      refine ⟨_, ?_, .blockIn ha' hframe hmore hlt hend hlags⟩
      dsimp only
      omega
  · cases hlags.thread with
    | inl hlast =>
      -- the node has caught up: the frame ends the block
      obtain ⟨hi, hat, hstate⟩ := hlast
      obtain ⟨c', hc, htx, -, hnext, -, hblock⟩ := step_cf hat hstate hframe hmore hok
      obtain ⟨hat', hstate'⟩ := hnext hlt
      obtain ⟨hhandle, fc, hout, hfc⟩ := hblock hlt hend
      have hthread := thread_cons hi hc
      rw [newFrames_rx htx hout, hlags.driver] at hthread
      obtain rfl := threadB_eq hstep hthread
      refine ⟨_, ?_, .fcOut ha (.inr hend) hlt hok.send rfl rfl hhandle hat' (.inr hstate') hfc⟩
      dsimp only
      rw [hi, length_singleton]
      omega
    | inr hnext =>
      obtain ⟨n, hthread, hlags', hlen⟩ := hnext.2 env hok
      obtain rfl := threadB_eq hstep hthread
      refine ⟨_, ?_, .blockIn ha hframe hmore hlt hend hlags'⟩
      dsimp only
      omega

theorem fcOut_step (ha : T.Awaits s.a j []) (hblock : j = 0 ∨ T.BlockEnd j)
    (hmore : T.pos j < T.msg.length) (hpos : 1 ≤ h) (hd : s.b.driver = [(f, h)])
    (hi : s.b.inbox = []) (hhandle : s.b.chan.rx.con.txHandle = h) (hat : T.RxAt s.b.chan j)
    (hstate : s.b.chan.rx.con.state = .sendingFc ∨ s.b.chan.rx.con.state = .waitCf)
    (hframe : T.IsFc f) (hok : NetOk s e) (hstep : netStep s e = some s') :
    ∃ m < T.left j + s.a.inbox.length + 3, T.Joint m s' := by
  cases e with
  | threadA env =>
    cases ha.thread hmore hblock with
    | inl hwait => exact absurd hstep (not_threadA hwait.1)
    | inr hconf =>
      obtain ⟨n, hthread, ha', hlen⟩ := hconf.2 env hok
      obtain rfl := threadA_eq hstep hthread
      refine ⟨_, ?_, .fcOut ha' hblock hmore hpos hd hi hhandle hat hstate hframe⟩
      dsimp only
      omega
  | threadB env => exact absurd hstep (not_threadB hi)
  | transmitA => exact absurd hstep (not_transmitA ha.1)
  | transmitB =>
    obtain rfl := transmitB_eq hstep hd
    have hconf : s.b.inbox ++ [.conf h] = [.conf h] := by rw [hi]; rfl
    refine ⟨_, ?_, .fcIn (ha.post _) hblock hmore hframe ⟨rfl, j, [], [.conf h], hat, hconf, .nil j,
      rfl, ?_, .inr ⟨h, hpos, rfl, hhandle, hstate⟩⟩⟩
    · show T.left j + (s.a.inbox ++ [Msg.frame f]).length + (s.b.inbox ++ [Msg.conf h]).length < _
      rw [hconf, length_append, length_singleton, length_singleton]
      omega
    · intro k hk hkj
      omega
  | gapA env => exact absurd hstep (not_gapA ha.not_gap)
  | gapB env => exact absurd hstep (not_gapB hat.quiet)

theorem fcIn_step (ha : T.Awaits s.a j [.frame f]) (hblock : j = 0 ∨ T.BlockEnd j)
    (hmore : T.pos j < T.msg.length) (hframe : T.IsFc f) (hlags : T.Lags s.b j []) (hok : NetOk s e)
    (hstep : netStep s e = some s') :
    ∃ m < T.left j + s.a.inbox.length + s.b.inbox.length, T.Joint m s' := by
  obtain ⟨env, rfl⟩ | ⟨env, rfl⟩ := threads_only ha.1 hlags.driver ha.not_gap hlags.quiet hstep
  · cases ha.thread hmore hblock with
    | inl hwait =>
      obtain ⟨hi, hwait⟩ := hwait
      obtain ⟨c', hc, hrx, hout, hgap, htimer⟩ := @step_fc _ env _ _ _ hwait hframe hblock
      have hthread := thread_cons hi hc
      rw [newFrames_none (by rw [hrx]) hout, ha.1] at hthread
      obtain rfl := threadA_eq hstep hthread
      refine ⟨_, ?_, .gap rfl rfl hgap htimer hmore hlags⟩
      dsimp only
      rw [hi, length_singleton]
      omega
    | inr hconf =>
      obtain ⟨n, hthread, ha', hlen⟩ := hconf.2 env hok
      obtain rfl := threadA_eq hstep hthread
      refine ⟨_, ?_, .fcIn ha' hblock hmore hframe hlags⟩
      dsimp only
      omega
  · obtain ⟨b', rfl, hlags', hlen⟩ := hlags.stepB hok hstep
    refine ⟨_, ?_, .fcIn ha hblock hmore hframe hlags'⟩
    dsimp only
    omega

theorem last_step (hlast : T.msg.length ≤ T.pos (j + 1))
    (ha : (s.a.driver = [] ∧ ∃ h, 1 ≤ h ∧ s.a.inbox = [.conf h] ∧ s.a.chan.tx.con.txHandle = h ∧
      T.TxSent s.a.chan (j + 1)) ∨ T.Sent s.a)
    (hb : (∃ f, T.IsCf j f ∧ T.pos j < T.msg.length ∧ T.Lags s.b j [.frame f]) ∨ T.Received s.b)
    (hok : NetOk s e) (hstep : netStep s e = some s') :
    ∃ m < s.a.inbox.length + s.b.inbox.length, T.Joint m s' := by
  have hda : s.a.driver = [] := ha.elim (fun h => h.1) (fun h => h.1)
  have hdb : s.b.driver = [] := hb.elim (fun ⟨_, _, _, h⟩ => h.1) (fun h => h.1)
  have hga : s.a.chan.tx.con.state ≠ .sendingNextCf := by
    cases ha with
    | inl hconf =>
      obtain ⟨-, _, -, -, -, hsent⟩ := hconf
      exact hsent.not_gap
    | inr hsent =>
      rw [hsent.2.2.state]
      decide
  have hgb : s.b.chan.tx.con.state = .idle := hb.elim (fun ⟨_, _, _, h⟩ => h.quiet) (fun h => h.2.2.quiet)
  obtain ⟨env, rfl⟩ | ⟨env, rfl⟩ := threads_only hda hdb hga hgb hstep
  · cases ha with
    | inl hconf =>
      obtain ⟨hd, h, hpos, hi, hhandle, hsent⟩ := hconf
      obtain ⟨c', hc, hrx, hout, hdone, -⟩ :=
        step_conf hsent hhandle hpos hok (fun hzero => absurd hzero (Nat.succ_ne_zero j))
      obtain ⟨n, hthread, hsent'⟩ := sent_thread hd hi hc hrx hout (hdone hlast)
      obtain rfl := threadA_eq hstep hthread
      refine ⟨_, ?_, .last hlast (.inr hsent') hb⟩
      rw [hsent'.2.1, hi]
      simp
    | inr hsent => exact absurd hstep (not_threadA hsent.2.1)
  · cases hb with
    | inl hframe =>
      obtain ⟨f, hf, hmore, hlags⟩ := hframe
      cases hlags.thread with
      | inl hend =>
        obtain ⟨hi, hat, hstate⟩ := hend
        obtain ⟨c', hc, htx, hdone, -⟩ := step_cf hat hstate hf hmore hok
        obtain ⟨hdone', hout⟩ := hdone hlast
        obtain ⟨n, hthread, hreceived⟩ := received_thread hlags.driver hi hc htx hout hdone'
        obtain rfl := threadB_eq hstep hthread
        refine ⟨_, ?_, .last hlast ha (.inr hreceived)⟩
        dsimp only
        rw [hreceived.2.1, hi]
        simp
      | inr hnext =>
        obtain ⟨n, hthread, hlags', hlen⟩ := hnext.2 env hok
        obtain rfl := threadB_eq hstep hthread
        refine ⟨_, ?_, .last hlast ha (.inl ⟨f, hf, hmore, hlags'⟩)⟩
        dsimp only
        omega
    | inr hreceived => exact absurd hstep (not_threadB hreceived.2.1)

end Step

/-- **Every action brings the transfer nearer to its end.** -/
theorem Joint.step {m : Nat} {s s' : Net} {e : NetEvent} (h : T.Joint m s) (hok : NetOk s e)
    (hstep : netStep s e = some s') : ∃ m' < m, T.Joint m' s' := by
  cases h with
  | start hd hi hstart hidle => exact start_step hd hi hstart hidle hok hstep
  | sfOut hpos hd hi hhandle hsf hframe hidle =>
    exact sfOut_step hpos hd hi hhandle hsf hframe hidle hstep
  | sfIn ha hb => exact sfIn_step ha hb hok hstep
  | ffOut hpos hd hi hhandle hsent hframe hmore hidle =>
    exact ffOut_step hpos hd hi hhandle hsent hframe hmore hidle hstep
  | ffIn ha hframe hmore hidle => exact ffIn_step ha hframe hmore hidle hok hstep
  | cfOut hpos hd hi hhandle hsent hframe hmore hlags =>
    exact cfOut_step hpos hd hi hhandle hsent hframe hmore hlags hok hstep
  | cfIn hpos hd hi hhandle hsent hj hinside hlags =>
    exact cfIn_step hpos hd hi hhandle hsent hj hinside hlags hok hstep
  | gap hd hi hgap htimer hmore hlags => exact gap_step hd hi hgap htimer hmore hlags hok hstep
  | due hd hi hgap hfired htimer hmore hlags hm =>
    exact due_step hd hi hgap hfired htimer hmore hlags hm hok hstep
  | blockIn ha hframe hmore hlt hend hlags =>
    exact blockIn_step ha hframe hmore hlt hend hlags hok hstep
  | fcOut ha hblock hmore hpos hd hi hhandle hat hstate hframe =>
    exact fcOut_step ha hblock hmore hpos hd hi hhandle hat hstate hframe hok hstep
  | fcIn ha hblock hmore hframe hlags => exact fcIn_step ha hblock hmore hframe hlags hok hstep
  | last hlast ha hb => exact last_step hlast ha hb hok hstep

end Transfer

/-! ## Every maximal run -/

/-- No action is possible. -/
def Stuck (s : Net) : Prop := ∀ e s', NetOk s e → netStep s e ≠ some s'

/-- Queues and drivers are empty and neither node waits for the gap between two frames. -/
structure Net.Idle (s : Net) : Prop where
  inboxA : s.a.inbox = []
  inboxB : s.b.inbox = []
  driverA : s.a.driver = []
  driverB : s.b.driver = []
  gapA : s.a.chan.tx.con.state ≠ .sendingNextCf
  gapB : s.b.chan.tx.con.state ≠ .sendingNextCf

variable {s : Net}

theorem Stuck.of_idle (h : s.Idle) : Stuck s := by
  intro e s' _ hstep
  cases e with
  | threadA env => simp [netStep, thread_nil h.inboxA] at hstep
  | threadB env => simp [netStep, thread_nil h.inboxB] at hstep
  | transmitA => simp [netStep, h.driverA] at hstep
  | transmitB => simp [netStep, h.driverB] at hstep
  | gapA env => simp [netStep, Node.gap, h.gapA] at hstep
  | gapB env => simp [netStep, Node.gap, h.gapB] at hstep

theorem granted_granted : Granted granted := by
  constructor <;> decide

theorem Stuck.of_threadA (h : Stuck s)
    (hthread : ∀ env, Granted env → ∃ n, s.a.thread env = some n) : False := by
  obtain ⟨n, hn⟩ := hthread granted granted_granted
  refine h (.threadA granted) { s with a := n } granted_granted ?_
  unfold netStep
  dsimp only
  rw [hn]
  rfl

theorem Stuck.of_threadB (h : Stuck s)
    (hthread : ∀ env, Granted env → ∃ n, s.b.thread env = some n) : False := by
  obtain ⟨n, hn⟩ := hthread granted granted_granted
  refine h (.threadB granted) { s with b := n } granted_granted ?_
  unfold netStep
  dsimp only
  rw [hn]
  rfl

theorem Stuck.of_transmitA {f : CanFrame} {k : Int} (h : Stuck s) (hd : s.a.driver = [(f, k)]) : False := by
  refine h .transmitA
    ⟨{ s.a with driver := [], inbox := s.a.inbox ++ [.conf k] }, s.b.post (.frame f)⟩ trivial ?_
  unfold netStep
  rw [hd]

theorem Stuck.of_transmitB {f : CanFrame} {k : Int} (h : Stuck s) (hd : s.b.driver = [(f, k)]) : False := by
  refine h .transmitB
    ⟨s.a.post (.frame f), { s.b with driver := [], inbox := s.b.inbox ++ [.conf k] }⟩ trivial ?_
  unfold netStep
  rw [hd]

namespace Transfer

variable {T : Transfer}

theorem Joint.done {m : Nat} {s : Net} (h : T.Joint m s) (hstuck : Stuck s) :
    T.Sent s.a ∧ T.Received s.b := by
  cases h with
  | start hd hi hstart hidle =>
    refine (hstuck.of_threadA fun env henv => ?_).elim
    obtain ⟨c', f, hc, -⟩ := step_sendFrame hstart henv
    exact ⟨_, thread_cons hi hc⟩
  | sfOut hpos hd hi hhandle hsf hframe hidle => exact (hstuck.of_transmitA hd).elim
  | sfIn ha hb =>
    constructor
    · refine ha.resolve_left ?_
      intro ⟨hd, h, hpos, hi, hhandle, hsf⟩
      refine hstuck.of_threadA fun env henv => ?_
      obtain ⟨c', hc, -⟩ := step_confSf hsf hhandle hpos henv
      exact ⟨_, thread_cons hi hc⟩
    · refine hb.resolve_left ?_
      intro ⟨f, hf, hidle⟩
      refine hstuck.of_threadB fun env henv => ?_
      obtain ⟨c', hc, -⟩ := step_sf hidle.2.2 hf henv
      exact ⟨_, thread_cons hidle.2.1 hc⟩
  | ffOut hpos hd hi hhandle hsent hframe hmore hidle => exact (hstuck.of_transmitA hd).elim
  | ffIn ha hframe hmore hidle =>
    refine (hstuck.of_threadB fun env henv => ?_).elim
    obtain ⟨c', fc, hc, -⟩ := step_ff hidle.2.2 hframe hmore henv
    exact ⟨_, thread_cons hidle.2.1 hc⟩
  | cfOut hpos hd hi hhandle hsent hframe hmore hlags => exact (hstuck.of_transmitA hd).elim
  | cfIn hpos hd hi hhandle hsent hj hinside hlags =>
    refine (hstuck.of_threadA fun env henv => ?_).elim
    obtain ⟨c', hc, -⟩ := step_conf hsent hhandle hpos henv (fun hzero => absurd hzero hj)
    exact ⟨_, thread_cons hi hc⟩
  | gap hd hi hgap htimer hmore hlags =>
    exfalso
    obtain ⟨c', hc, -⟩ := @step_txTimer _ granted _ _ hgap htimer
    have hnode : s.a.gap granted = some ⟨c', s.a.inbox ++ [.txTimeout], s.a.driver⟩ := by
      unfold Node.gap
      rw [if_pos hgap.state, hc]
      rfl
    refine hstuck (.gapA granted) { s with a := ⟨c', s.a.inbox ++ [.txTimeout], s.a.driver⟩ } trivial ?_
    unfold netStep
    dsimp only
    rw [hnode]
    rfl
  | due hd hi hgap hfired htimer hmore hlags hm =>
    refine (hstuck.of_threadA fun env henv => ?_).elim
    obtain ⟨c', f, hc, -⟩ := step_txTimeout hgap hfired henv
    exact ⟨_, thread_cons hi hc⟩
  | blockIn ha hframe hmore hlt hend hlags =>
    refine (hstuck.of_threadB fun env henv => ?_).elim
    cases hlags.thread with
    | inl hlast =>
      obtain ⟨c', hc, -⟩ := step_cf hlast.2.1 hlast.2.2 hframe hmore henv
      exact ⟨_, thread_cons hlast.1 hc⟩
    | inr hnext =>
      obtain ⟨n, hthread, -⟩ := hnext.2 env henv
      exact ⟨n, hthread⟩
  | fcOut ha hblock hmore hpos hd hi hhandle hat hstate hframe =>
    exact (hstuck.of_transmitB hd).elim
  | fcIn ha hblock hmore hframe hlags =>
    refine (hstuck.of_threadA fun env henv => ?_).elim
    cases ha.thread hmore hblock with
    | inl hwait =>
      obtain ⟨c', hc, -⟩ := @step_fc _ env _ _ _ hwait.2 hframe hblock
      exact ⟨_, thread_cons hwait.1 hc⟩
    | inr hconf =>
      obtain ⟨n, hthread, -⟩ := hconf.2 env henv
      exact ⟨n, hthread⟩
  | last hlast ha hb =>
    constructor
    · refine ha.resolve_left ?_
      intro ⟨hd, h, hpos, hi, hhandle, hsent⟩
      refine hstuck.of_threadA fun env henv => ?_
      obtain ⟨c', hc, -⟩ := step_conf hsent hhandle hpos henv (fun hzero => absurd hzero (Nat.succ_ne_zero _))
      exact ⟨_, thread_cons hi hc⟩
    · refine hb.resolve_left ?_
      intro ⟨f, hf, hmore, hlags⟩
      refine hstuck.of_threadB fun env henv => ?_
      cases hlags.thread with
      | inl hend =>
        obtain ⟨c', hc, -⟩ := step_cf hend.2.1 hend.2.2 hf hmore henv
        exact ⟨_, thread_cons hend.1 hc⟩
      | inr hnext =>
        obtain ⟨n, hthread, -⟩ := hnext.2 env henv
        exact ⟨n, hthread⟩

/-- In every state the receiving node has handed over nothing, or the message; the sending node has
notified nothing, or the end of the transfer. -/
theorem Joint.once {m : Nat} {s : Net} (h : T.Joint m s) :
    (s.b.chan.rx.indications = T.indications ∨ T.RxDone s.b.chan) ∧
      (s.a.chan.tx.notes = T.notes ∨ T.TxDone s.a.chan) := by
  have hlags : ∀ {j : Nat} {more : List Msg}, T.Lags s.b j more →
      s.b.chan.rx.indications = T.indications := by
    intro j more ⟨_, _, _, _, hat, _⟩
    exact hat.indications
  have hawaits : ∀ {j : Nat} {more : List Msg}, T.Awaits s.a j more → s.a.chan.tx.notes = T.notes := by
    intro j more ⟨_, hor⟩
    cases hor with
    | inl hconf =>
      obtain ⟨_, _, _, _, hsent⟩ := hconf
      exact hsent.notes
    | inr hwait => exact hwait.2.notes
  cases h with
  | start hd hi hstart hidle => exact ⟨.inl hidle.2.2.indications, .inl hstart.notes⟩
  | sfOut hpos hd hi hhandle hsf hframe hidle =>
    exact ⟨.inl hidle.2.2.indications, .inl hsf.notes⟩
  | sfIn ha hb =>
    refine ⟨hb.imp ?_ (fun h => h.2.2), ha.imp ?_ (fun h => h.2.2)⟩
    · exact fun ⟨_, _, hidle⟩ => hidle.2.2.indications
    · exact fun ⟨_, _, _, _, _, hsf⟩ => hsf.notes
  | ffOut hpos hd hi hhandle hsent hframe hmore hidle =>
    exact ⟨.inl hidle.2.2.indications, .inl hsent.notes⟩
  | ffIn ha hframe hmore hidle => exact ⟨.inl hidle.2.2.indications, .inl (hawaits ha)⟩
  | cfOut hpos hd hi hhandle hsent hframe hmore h => exact ⟨.inl (hlags h), .inl hsent.notes⟩
  | cfIn hpos hd hi hhandle hsent hj hinside h => exact ⟨.inl (hlags h), .inl hsent.notes⟩
  | gap hd hi hgap htimer hmore h => exact ⟨.inl (hlags h), .inl hgap.notes⟩
  | due hd hi hgap hfired htimer hmore h hm => exact ⟨.inl (hlags h), .inl hgap.notes⟩
  | blockIn ha hframe hmore hlt hend h => exact ⟨.inl (hlags h), .inl (hawaits ha)⟩
  | fcOut ha hblock hmore hpos hd hi hhandle hat hstate hframe =>
    exact ⟨.inl hat.indications, .inl (hawaits ha)⟩
  | fcIn ha hblock hmore hframe h => exact ⟨.inl (hlags h), .inl (hawaits ha)⟩
  | last hlast ha hb =>
    refine ⟨hb.imp ?_ (fun h => h.2.2), ha.imp ?_ (fun h => h.2.2)⟩
    · exact fun ⟨_, _, _, h⟩ => hlags h
    · exact fun ⟨_, _, _, _, _, hsent⟩ => hsent.notes

end Transfer

/-! ## From two idle channels -/

/-- Two channels that suit each other: same addressing, each expecting the address of the other,
the receiving one answering; the one can send, the other receive. -/
structure Paired (a b : Isotp) : Prop where
  ae : b.opt.ae = a.opt.ae
  toB : a.opt.ae ≠ 0 → a.opt.extAddress = b.opt.rxExtAddress
  toA : a.opt.ae ≠ 0 → b.opt.extAddress = a.opt.rxExtAddress
  answers : ¬b.opt.listen
  accounted : a.tx.Accounted
  free : ¬a.tx.Pending
  idle : b.rx.con.state = .idle
  quiet : b.tx.con.state = .idle ∧ b.tx.con.txHandle = 0

/-- `isotp_send` has been called for `a`, and nothing else happens on the bus. -/
def sending (env : Env) (msg : List Byte) (flags : BitVec 32) (a b : Isotp) : Net :=
  ⟨⟨(isotpSend env msg flags a).1, [.sendFrame], []⟩, ⟨b, [], []⟩⟩

/-- The message is handed over, once. -/
def Handed (b : Isotp) (msg : List Byte) (s : Net) : Prop :=
  ∃ n, s.b.chan.rx.indications = b.rx.indications ++ [n] ∧ s.b.chan.rx.mem.content n = some msg

/-- The sending half is idle, its snip released, and the transfer confirmed, once. -/
structure Confirmed (a : Isotp) (s : Net) : Prop where
  idle : s.a.chan.tx.con.state = .idle
  snip : s.a.chan.tx.con.snip = none
  released : ¬s.a.chan.tx.mem.Live a.tx.mem.next
  note : s.a.chan.tx.notes = a.tx.notes ++ [(some a.tx.mem.next, .txConfirmation)]

theorem flags_kept (flags : BitVec 16) (given : BitVec 32) :
    (((flags.setWidth 32 &&& rxFlagsMask).setWidth 16).setWidth 32 ||| (given &&& txFlagsMask)).setWidth 16
      = flags := by
  apply BitVec.eq_of_getLsbD_eq
  intro i hi
  have hlow : ∀ j < 16, rxFlagsMask.getLsbD j = true ∧ txFlagsMask.getLsbD j = false := by decide
  have hi' : i < 32 := by omega
  simp only [BitVec.getLsbD_setWidth, BitVec.getLsbD_or, BitVec.getLsbD_and, (hlow i hi).1,
    (hlow i hi).2, decide_eq_true hi, decide_eq_true hi', Bool.true_and, Bool.and_true,
    Bool.and_false, Bool.or_false]

/-- The transfer of a message between two channels. -/
def Paired.transfer {a b : Isotp} (h : Paired a b) (msg : List Byte) (hpos : 0 < msg.length)
    (hle : msg.length ≤ maxMsgLength) : Transfer where
  msg := msg
  optA := a.opt
  optB := b.opt
  fc := b.rx.fc
  txSnip := a.tx.mem.next
  notes := a.tx.notes
  indications := b.rx.indications
  length_pos := hpos
  length_le := hle
  ae := a.opt.ae
  aeA := rfl
  aeB := h.ae
  toB := h.toB
  toA := h.toA
  answers := h.answers

theorem Paired.joint {a b : Isotp} (h : Paired a b) {msg : List Byte} (hpos : 0 < msg.length)
    (hle : msg.length ≤ maxMsgLength) {env : Env} {flags : BitVec 32} (halloc : env.alloc.isSome)
    (hflags : flags &&& txDontWait = 0) :
    (h.transfer msg hpos hle).Joint (8 * msg.length + 8) (sending env msg flags a b) := by
  have hidle : a.tx.con.state = .idle := by
    by_contra hbusy
    exact h.free (.inr hbusy)
  have hposted : a.tx.posted = 0 := by
    by_contra hne
    exact h.free (.inl (by omega))
  have hacc := @isotpSend_accounted env _ flags _ h.accounted hle (fun _ => ⟨hposted, fun _ => hflags⟩)
  obtain ⟨memory, hmemory⟩ := isSome_iff_exists.mp halloc
  obtain ⟨opt, hopt, hshape⟩ : ∃ opt, opt = a.opt ∧ (isotpSend env msg flags a).1 = { a with
      opt := opt
      tx := { a.tx with
        mem := a.tx.mem.add msg, con.snip := some a.tx.mem.next, con.idx := 0, wft := 0
        posted := a.tx.posted + 1
        sends := a.tx.sends ++ [(a.tx.mem.next, decide (flags &&& txDontWait ≠ 0))] } } := by
    unfold isotpSend
    dsimp only
    rw [if_neg (by rw [hidle]; exact fun h => h rfl), hmemory]
    refine ⟨_, ?_, rfl⟩
    split
    · rw [flags_kept]
    · rfl
  refine .start rfl rfl ?_ ⟨rfl, rfl, rfl, rfl, h.quiet.2, rfl, h.idle, h.quiet.1⟩
  refine ⟨?_, hacc, ?_, ?_, ?_, ?_⟩
  · show (isotpSend env msg flags a).1.opt = a.opt
    rw [hshape]
    exact hopt
  · show 0 < (isotpSend env msg flags a).1.tx.posted
    rw [hshape]
    exact Nat.succ_pos _
  · show (isotpSend env msg flags a).1.tx.con.snip = some a.tx.mem.next
    rw [hshape]
  · show (isotpSend env msg flags a).1.tx.mem.content a.tx.mem.next = some msg
    rw [hshape]
    exact PktBuf.add_content ..
  · show (isotpSend env msg flags a).1.tx.notes = a.tx.notes
    rw [hshape]

/-- **The transfer.** From two idle channels that suit each other, for every message that
`isotp_send` accepts, every flow control option, and every order in which the threads, the drivers
and the gap timer act, as long as what the threads ask for is granted: the run has an end, and where
no action is possible any more, the message has been handed over and the transfer confirmed; at no
time is anything else handed over or notified. -/
theorem isotp_transfer {a b : Isotp} (h : Paired a b) {msg : List Byte} (hpos : 0 < msg.length)
    (hle : msg.length ≤ maxMsgLength) {env : Env} {flags : BitVec 32} (halloc : env.alloc.isSome)
    (hflags : flags &&& txDontWait = 0) {es : List NetEvent} {s : Net}
    (hok : Along netStep NetOk (sending env msg flags a b) es)
    (hrun : run netStep (sending env msg flags a b) es = some s) :
    es.length ≤ 8 * msg.length + 8 ∧
      (s.b.chan.rx.indications = b.rx.indications ∨ Handed b msg s) ∧
      (s.a.chan.tx.notes = a.tx.notes ∨ Confirmed a s) ∧
      (Stuck s → Handed b msg s ∧ Confirmed a s) := by
  obtain ⟨m, hm, hJ⟩ := run_measure (fun _ _ _ _ hJ hok hstep => Transfer.Joint.step hJ hok hstep) es
    (h.joint hpos hle halloc hflags) hok hrun
  have hhanded : (h.transfer msg hpos hle).RxDone s.b.chan → Handed b msg s := fun hdone => hdone.delivered
  have hconfirmed : (h.transfer msg hpos hle).TxDone s.a.chan → Confirmed a s :=
    fun hdone => ⟨hdone.state, hdone.snip, hdone.released, hdone.notes⟩
  obtain ⟨hb, ha⟩ := hJ.once
  refine ⟨by omega, hb.imp_right hhanded, ha.imp_right hconfirmed, fun hstuck => ?_⟩
  obtain ⟨hsent, hreceived⟩ := hJ.done hstuck
  exact ⟨hhanded hreceived.2.2, hconfirmed hsent.2.2⟩

theorem granted_iff (env : Env) : Granted env ↔ env.alloc.isSome = true ∧ env.rxData = true ∧
    env.indTaken = true ∧ env.noteTaken = true ∧ 1 ≤ env.send :=
  ⟨fun h => ⟨h.alloc, h.rxData, h.indTaken, h.noteTaken, h.send⟩,
    fun ⟨h1, h2, h3, h4, h5⟩ => ⟨h1, h2, h3, h4, h5⟩⟩

instance (env : Env) : Decidable (Granted env) := decidable_of_iff _ (granted_iff env).symm

instance (s : Net) : ∀ e, Decidable (NetOk s e)
  | .threadA env | .threadB env => inferInstanceAs (Decidable (Granted env))
  | .transmitA | .transmitB | .gapA _ | .gapB _ => inferInstanceAs (Decidable True)

/-- Extended addresses `0x11` and `0x22`, and padding. -/
def addressedA : Options := ⟨0x700, 0x6, 0x11, 0xcc, 0x22⟩
def addressedB : Options := ⟨0x708, 0x6, 0x22, 0xcc, 0x11⟩

theorem paired_addressed : Paired (isotpBind addressedA none) (isotpBind addressedB none) where
  ae := by decide
  toB := by decide
  toA := by decide
  answers := by decide
  accounted := isotpBind_accounted addressedA none
  free := by decide
  idle := rfl
  quiet := ⟨rfl, rfl⟩

/-- A first frame, a flow control frame and a consecutive frame. -/
def tenBytes : List NetEvent :=
  [.threadA granted, .transmitA, .threadB granted, .transmitB, .threadA granted, .threadA granted,
    .gapA granted, .threadA granted, .transmitA, .threadA granted, .threadB granted,
    .threadB granted]

theorem isotp_transfer_ten_bytes :
    ∃ s, run netStep (sending granted [1, 2, 3, 4, 5, 6, 7, 8, 9, 10] 0
        (isotpBind addressedA none) (isotpBind addressedB none)) tenBytes = some s ∧
      Handed (isotpBind addressedB none) [1, 2, 3, 4, 5, 6, 7, 8, 9, 10] s ∧
        Confirmed (isotpBind addressedA none) s := by
  have hrun : (run netStep (sending granted [1, 2, 3, 4, 5, 6, 7, 8, 9, 10] 0
      (isotpBind addressedA none) (isotpBind addressedB none)) tenBytes).any (fun s => decide
        ((s.a.inbox = [] ∧ s.b.inbox = [] ∧ s.a.driver = [] ∧ s.b.driver = []) ∧
          s.a.chan.tx.con.state ≠ .sendingNextCf ∧ s.b.chan.tx.con.state ≠ .sendingNextCf)) =
      true := by
    decide +kernel
  obtain ⟨s, hs, hdec⟩ := (Option.any_eq_true _ _).mp hrun
  obtain ⟨⟨h₁, h₂, h₃, h₄⟩, h₅, h₆⟩ := of_decide_eq_true hdec
  have htransfer := isotp_transfer paired_addressed (by decide) (by decide) (by decide) (by decide)
    (by decide +kernel) hs
  exact ⟨s, hs, htransfer.2.2.2 (Stuck.of_idle ⟨h₁, h₂, h₃, h₄, h₅, h₆⟩)⟩

/-- A single frame comes when the packet buffer of the receiving node has no room: it is dropped,
and the sending node is told nothing. -/
theorem not_isotp_transfer :
    ¬∀ {a b : Isotp}, Paired a b → ∀ {msg : List Byte}, 0 < msg.length → msg.length ≤ maxMsgLength →
      ∀ {env : Env} {flags : BitVec 32}, env.alloc.isSome → flags &&& txDontWait = 0 →
        ∀ {es : List NetEvent} {s : Net},
          run netStep (sending env msg flags a b) es = some s → Stuck s →
            Handed b msg s ∧ Confirmed a s := by
  intro h
  have hrun : (run netStep (sending granted [7] 0 (isotpBind addressedA none)
      (isotpBind addressedB none)) [.threadA granted, .transmitA, .threadA granted,
        .threadB { granted with alloc := none }]).any
      (fun s => decide (s.a.inbox.isEmpty ∧ s.b.inbox.isEmpty ∧ s.a.driver.isEmpty ∧
        s.b.driver.isEmpty ∧ s.a.chan.tx.con.state = .idle ∧ s.b.chan.tx.con.state = .idle ∧
        s.b.chan.rx.indications = [])) = true := by decide +kernel
  obtain ⟨s, hs, hfacts⟩ := (Option.any_eq_true _ _).mp hrun
  obtain ⟨hia, hib, hda, hdb, hga, hgb, hnone⟩ := of_decide_eq_true hfacts
  have hstuck : Stuck s := by
    intro e s' _
    cases e with
    | threadA env => exact not_threadA (List.isEmpty_iff.mp hia)
    | threadB env => exact not_threadB (List.isEmpty_iff.mp hib)
    | transmitA => exact not_transmitA (List.isEmpty_iff.mp hda)
    | transmitB => exact not_transmitB (List.isEmpty_iff.mp hdb)
    | gapA env => exact not_gapA (by rw [hga]; decide)
    | gapB env => exact not_gapB hgb
  obtain ⟨⟨n, hn, -⟩, -⟩ := h paired_addressed (by decide) (by decide) (by decide) (by decide) hs hstuck
  rw [hnone] at hn
  exact absurd hn (by simp)

end Riot.Can
