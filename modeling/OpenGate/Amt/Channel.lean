import OpenGate.Lib.Tasks

/-!
# The windows of an APF channel

`Channel` of `amt/transport/mps_channel.go` with the message loop that feeds it and the device
at the other end.  What the device may still send, what is under way, buffered, taken and handed
back adds up to one window (`credit_conserved`).  The other direction has no such account:
`Write` does not look at the device's window, so its callers have to (`written_le_granted`).
-/

namespace OpenGate.Amt

open OpenGate.Lib List

def defaultWindowSize : Nat := 0x8000

def defaultMaxPacketSize : Nat := 0x8000

/-- A channel of the server's own, its buffered data as their length and its `err` as whether
there is one. -/
structure Channel where
  sendWindow : Nat
  inbox : Nat
  unacked : Nat
  err : Bool
  deriving DecidableEq

namespace Channel

def takeAdjust (ch : Channel) (n : Nat) : Channel × Nat :=
  if ch.unacked + n < defaultWindowSize / 2 then ({ ch with unacked := ch.unacked + n }, 0)
  else ({ ch with unacked := 0 }, min (ch.unacked + n) (2 ^ 32 - 1))

def deliver (ch : Channel) (data : Nat) : Option (Channel × Nat) :=
  if ch.err then some (ch, 0)
  else if defaultWindowSize < ch.inbox + data then none
  else some ({ ch with inbox := ch.inbox + data }, 0)

/-- The locked section of `Read` with a buffer of this size, and the adjust due; none while the
read has to wait. -/
def read (ch : Channel) (size : Nat) : Option (Channel × Nat) :=
  if 0 < ch.inbox then
    let n := min size ch.inbox
    some (if ch.err then ({ ch with inbox := ch.inbox - n }, 0)
      else { ch with inbox := ch.inbox - n }.takeAdjust n)
  else if ch.err then some (ch, 0)
  else none

end Channel

/-- The channel, what is under way each way (data by length, adjusts by amount), the device's
credit, the adjusts received from it and the bytes written to it. -/
structure Link where
  channel : Channel
  toServer : List Nat
  toDevice : List Nat
  credit : Nat
  adjusts : List Nat
  written : Nat
  deriving DecidableEq

inductive LinkTask where
  | send (data : Nat)
  | handleChannelData
  | read (size : Nat)
  | reopenWindow (adjust : Nat)
  | adjusted
  | handleWindowAdj (bytesToAdd : Nat)
  | write (len : Nat)
  /-- The loop of `Write`, with what it has still to write. -/
  | packets (left : Nat)
  deriving DecidableEq

def LinkTask.calls : LinkTask → Bool
  | .reopenWindow _ | .packets _ => false
  | _ => true

namespace Link

variable {s s' : Link} {task : LinkTask} {before after next : List LinkTask}

def exec (s : Link) : LinkTask → Option (Link × List LinkTask)
  | .send data =>
    if data ≤ s.credit then
      some ({ s with credit := s.credit - data, toServer := s.toServer ++ [data] }, [])
    else none
  | .handleChannelData => match s.toServer with
    | [] => none
    | data :: rest => match s.channel.deliver data with
      | none => some ({ s with toServer := rest, channel := { s.channel with err := true } }, [])
      | some (ch, adjust) =>
        some ({ s with toServer := rest, channel := ch }, [.reopenWindow adjust])
  | .read size => (s.channel.read size).map fun (ch, adjust) =>
    ({ s with channel := ch }, [.reopenWindow adjust])
  | .reopenWindow adjust =>
    some (if adjust = 0 then s else { s with toDevice := s.toDevice ++ [adjust] }, [])
  | .adjusted => match s.toDevice with
    | [] => none
    | adjust :: rest => some ({ s with toDevice := rest, credit := s.credit + adjust }, [])
  | .handleWindowAdj bytesToAdd =>
    some ({ s with
      channel := { s.channel with sendWindow := s.channel.sendWindow + bytesToAdd }
      adjusts := s.adjusts ++ [bytesToAdd] }, [])
  | .write len => some (s, [.packets len])
  | .packets left =>
    let packet := min defaultMaxPacketSize left
    some (if left = 0 ∨ s.channel.err then (s, [])
      else ({ s with written := s.written + packet }, [.packets (left - packet)]))

def new (window : Nat) : Link := ⟨⟨window, 0, 0, false⟩, [], [], defaultWindowSize, [], 0⟩

abbrev Reached (guard : Pool Link LinkTask → LinkTask → Bool) (window : Nat) :
    Pool Link LinkTask → Prop :=
  PoolReached (LinkTask.calls ·) exec (guard · ·) (new window)

/-! ## What the device may send -/

/-- The adjust a read or a delivery has taken and not yet written. -/
def due : LinkTask → Nat
  | .reopenWindow adjust => adjust
  | _ => 0

/-- The window's bytes outside the calls under way. -/
def account (s : Link) : Nat :=
  s.credit + s.toServer.sum + s.channel.inbox + s.channel.unacked + s.toDevice.sum

structure Conserved (s : Link) (tasks : List LinkTask) : Prop where
  whole : s.account + owed due tasks = defaultWindowSize
  few : s.channel.unacked < defaultWindowSize / 2
  sound : s.channel.err = false

theorem takeAdjust_conserves {ch ch' : Channel} {n adjust : Nat}
    (taken : ch.takeAdjust n = (ch', adjust)) (fits : ch.unacked + n ≤ defaultWindowSize) :
    ch'.unacked + adjust = ch.unacked + n ∧ ch'.unacked < defaultWindowSize / 2 ∧
      ch'.inbox = ch.inbox ∧ ch'.err = ch.err := by
  unfold Channel.takeAdjust at taken
  split at taken
  next small =>
    cases taken
    exact ⟨rfl, small, rfl, rfl⟩
  · cases taken
    have word : ch.unacked + n ≤ 2 ^ 32 - 1 := fits.trans (by decide)
    exact ⟨(Nat.zero_add _).trans (Nat.min_eq_left word), Nat.div_pos (by decide) Nat.two_pos, rfl,
      rfl⟩

/-- A step that moves bytes within the account keeps it. -/
theorem Conserved.run (conserved : Conserved s (before ++ task :: after))
    (moved : s'.account + owed due next = s.account + due task)
    (few : s'.channel.unacked < defaultWindowSize / 2) (sound : s'.channel.err = false) :
    Conserved s' (before ++ next ++ after) :=
  ⟨owed_run (by omega) conserved.whole, few, sound⟩

theorem exec_conserved (ran : s.exec task = some (s', next))
    (conserved : Conserved s (before ++ task :: after)) :
    Conserved s' (before ++ next ++ after) := by
  have ⟨whole, few, sound⟩ := conserved
  have fits : s.account ≤ defaultWindowSize := by omega
  unfold account at fits
  cases task with
  | send data =>
    rw [exec] at ran
    split at ran
    next enough =>
      cases ran
      refine conserved.run ?_ few sound
      simp only [account, sum_append, sum_singleton, owed_nil, due]
      omega
    · cases ran
  | handleChannelData =>
    rw [exec] at ran
    split at ran
    · cases ran
    next data rest queued =>
      rw [queued, sum_cons] at fits
      have room : ¬ defaultWindowSize < s.channel.inbox + data := by omega
      rw [Channel.deliver, if_neg (ne_true_of_eq_false sound), if_neg room] at ran
      cases ran
      refine conserved.run ?_ few sound
      simp only [account, queued, sum_cons, owed_cons, owed_nil, due]
      omega
  | read size =>
    obtain ⟨⟨ch, adjust⟩, got, ran⟩ := Option.map_eq_some_iff.mp ran
    cases ran
    simp only [Channel.read, sound, Bool.false_eq_true, if_false] at got
    split at got
    · obtain ⟨kept, small, inbox, err⟩ :=
        takeAdjust_conserves (Option.some.inj got) (by simp only; omega)
      refine conserved.run ?_ small err
      simp only [account, owed_cons, owed_nil, due] at kept inbox ⊢
      omega
    · cases got
  | reopenWindow adjust =>
    cases ran
    split
    next none => exact conserved.run (by simp [due, none]) few sound
    · refine conserved.run ?_ few sound
      simp only [account, sum_append, sum_singleton, owed_nil, due]
      omega
  | adjusted =>
    rw [exec] at ran
    split at ran
    · cases ran
    next adjust rest queued =>
      cases ran
      refine conserved.run ?_ few sound
      simp only [account, queued, sum_cons, owed_nil, due]
      omega
  | handleWindowAdj | write =>
    cases ran
    exact conserved.run rfl few sound
  | packets left =>
    rw [exec] at ran
    split at ran <;> cases ran <;> exact conserved.run rfl few sound

variable {window : Nat} {pool : Pool Link LinkTask}

/-- In every run the device's credit, the bytes under way to the server, those buffered, those
taken since the last adjust and the adjusts under way are one window; the device is never cut
off, and with everything read and nothing under way it has credit. -/
theorem credit_conserved (reached : Reached (fun _ _ => true) window pool) :
    pool.shared.credit + pool.shared.toServer.sum + pool.shared.channel.inbox +
        pool.shared.channel.unacked + (pool.shared.toDevice.sum + owed due pool.tasks)
        = defaultWindowSize ∧
      (∀ data ∈ pool.shared.toServer.head?, pool.shared.channel.deliver data ≠ none) ∧
      pool.shared.channel.err = false ∧
      (pool.shared.channel.inbox = 0 → pool.shared.toServer = [] → pool.shared.toDevice = [] →
        owed due pool.tasks = 0 → 0 < pool.shared.credit) := by
  obtain ⟨whole, few, sound⟩ : Conserved pool.shared pool.tasks := by
    refine PoolReached.invariant (I := Conserved) ⟨rfl, Nat.div_pos (by decide) Nat.two_pos, rfl⟩ ?_
      ?_ reached
    · intro s tasks task call was
      refine ⟨?_, was.few, was.sound⟩
      have : due task = 0 := by cases task <;> first | rfl | cases call
      rw [owed_append, owed_cons, this]
      exact was.whole
    · exact fun _ _ _ _ _ _ ran _ was => exec_conserved ran was
  unfold account at whole
  refine ⟨by omega, ?_, sound, ?_⟩
  · intro data first refused
    have sum : data ≤ pool.shared.toServer.sum := le_sum_of_mem (mem_of_mem_head? first)
    unfold Channel.deliver at refused
    grind
  · intro read delivered received written
    rw [read, delivered, received, sum_nil] at whole
    omega

/-- Half a window sent, read and handed back, with five more bytes taken. -/
theorem credit_conserved_half : ∃ pool : Pool Link LinkTask, pool.shared.channel.unacked = 5 ∧
    pool.shared.credit + 5 = defaultWindowSize ∧ 0 < pool.shared.credit := by
  have run : ∃ pool, Reached (fun _ _ => true) 0 pool ∧ pool.shared.channel.unacked = 5 ∧
      pool.shared.credit + 5 = defaultWindowSize ∧ pool.shared.channel.inbox = 0 ∧
      pool.shared.toServer = [] ∧ pool.shared.toDevice = [] ∧ owed due pool.tasks = 0 :=
    exists_reached_of_follow
      ([.begin (.send 0x4000), .begin .handleChannelData, .begin (.read 0x4000),
      .begin (.send 5), .begin .handleChannelData, .begin (.read 9), .begin .adjusted] ++
      [0, 0, 0, 0, 0, 0, 0, 0, 0, 0, 0].map .run) (by decide) (by decide +kernel)
  obtain ⟨pool, reached, five, whole, read, delivered, received, written⟩ := run
  exact ⟨pool, five, whole, (credit_conserved reached).2.2.2 read delivered received written⟩

/-! ## What the server may send -/

/-- What a `Write` under way has still to write. -/
def unsent : LinkTask → Nat
  | .packets left => left
  | _ => 0

/-- A `Write` is called only with what the device's window has left beside what is written and
what the writes under way have still to write. -/
def afforded (pool : Pool Link LinkTask) : LinkTask → Bool
  | .write len =>
    pool.shared.written + owed unsent pool.tasks + len ≤ pool.shared.channel.sendWindow
  | _ => true

structure Granted (window : Nat) (s : Link) (tasks : List LinkTask) : Prop where
  given : s.channel.sendWindow = window + s.adjusts.sum
  paid : s.written + owed unsent tasks ≤ s.channel.sendWindow

/-- Only `handleWindowAdj` touches the window, and only `Write` writes. -/
theorem exec_granted (ran : s.exec task = some (s', next))
    (within : afforded ⟨s, before ++ task :: after⟩ task)
    (granted : Granted window s (before ++ task :: after)) :
    Granted window s' (before ++ next ++ after) := by
  obtain ⟨given, paid⟩ := granted
  have step (window' : s'.channel.sendWindow = window + s'.adjusts.sum)
      (pays : s'.written + owed unsent next + s.channel.sendWindow ≤
        s.written + unsent task + s'.channel.sendWindow) :
      Granted window s' (before ++ next ++ after) := by
    refine ⟨window', ?_⟩
    simp only [owed_append, owed_cons] at paid ⊢
    omega
  cases task with
  | write len =>
    cases ran
    have room := of_decide_eq_true within
    refine ⟨given, ?_⟩
    simp only [owed_append, owed_cons, owed_nil, unsent] at room ⊢
    omega
  | packets left =>
    rw [exec] at ran
    split at ran
    · cases ran
      exact step given (by simp [unsent])
    · cases ran
      refine step given ?_
      simp only [owed_cons, owed_nil, unsent]
      omega
  | handleWindowAdj bytesToAdd =>
    cases ran
    exact step (by simp [given, Nat.add_assoc]) (by simp [unsent])
  | handleChannelData | read | send | adjusted | reopenWindow =>
    have kept : s'.channel.sendWindow = s.channel.sendWindow ∧ s'.adjusts = s.adjusts ∧
        s'.written = s.written ∧ owed unsent next = 0 := by
      simp only [exec, Channel.deliver, Channel.read, Channel.takeAdjust, Option.map] at ran
      grind [unsent, owed_cons, owed_nil]
    obtain ⟨same, adjusts, written, nothing⟩ := kept
    exact step (by rw [same, adjusts, given]) (by rw [same, written, nothing]; simp [unsent])

/-- In every run whose writes are all within what the window has left, no more bytes are written
than the device's window and adjusts allow. -/
theorem written_le_granted (reached : Reached afforded window pool) :
    pool.shared.written ≤ window + pool.shared.adjusts.sum := by
  obtain ⟨given, paid⟩ : Granted window pool.shared pool.tasks := by
    refine PoolReached.invariant (I := Granted window) ⟨rfl, Nat.zero_le _⟩ ?_ ?_ reached
    · intro s tasks task call was
      refine ⟨was.given, ?_⟩
      have : unsent task = 0 := by cases task <;> first | rfl | cases call
      rw [owed_append, owed_cons, this]
      exact was.paid
    · exact fun _ _ _ _ _ _ ran within was => exec_granted ran within was
  omega

/-- A window of four bytes, raised by three and then filled by two writes. -/
theorem written_le_granted_filled : ∃ pool : Pool Link LinkTask,
    pool.shared.written = 7 ∧ pool.shared.written ≤ 4 + pool.shared.adjusts.sum := by
  have run : ∃ pool, Reached afforded 4 pool ∧ pool.shared.written = 7 :=
    exists_reached_of_follow ([.begin (.write 4), .begin (.handleWindowAdj 3), .begin (.write 3)] ++
      [1, 0, 1, 0, 1].map .run) (by decide) (by decide +kernel)
  obtain ⟨pool, reached, seven⟩ := run
  exact ⟨pool, seven, written_le_granted reached⟩

/-- A write of five bytes to a device that gave a window of four. -/
theorem written_past_granted : ∃ pool : Pool Link LinkTask,
    Reached (fun _ _ => true) 4 pool ∧ ¬ pool.shared.written ≤ 4 + pool.shared.adjusts.sum :=
  exists_reached_of_follow [.begin (.write 5), .run 0, .run 0] (by decide) (by decide +kernel)

end Link

end OpenGate.Amt
