import GlucOS.Sched.PcbList

/-! `check_sleeping`, link by link: it walks along the sleep queue while it deletes from it. -/

namespace GlucOS.Sched

/-- The links of all PCBs, and what they do. -/
structure SleepState where
  /-- The links. -/
  links : Links
  /-- `status` of a PCB. -/
  status : PcbRef → TaskStatus

namespace SleepState

/-- `wake_up`, for lists of so many nodes at most; nothing is the answer where it panics. -/
def wakeUp (s : SleepState) (size : Nat) (t ccpu : PcbRef) : Option SleepState :=
  if s.status t ≠ .sleeping then none
  else do
    let ((head, pw), m) ← s.links.lpcbDelNodeIn size (s.links.head .sleep) t
    if pw ≠ some t then none
    else
      let m := m.setHead .sleep head
      let (ready, m) ← m.lpcbInsertNodeIn size (m.head .ready) t (some ccpu) .ready
      if ready = none then none
      else return { links := m.setHead .ready ready, status := Function.update s.status t .ready }

/-- `wake_up` of a process whose time has come. -/
def wakeDue (s : SleepState) (size timeNowSec : Nat) (wakeupTime : PcbRef → Nat)
    (pw ccpu : PcbRef) : Option SleepState :=
  if wakeupTime pw ≤ timeNowSec then s.wakeUp size pw ccpu else some s

/-- The loop of `check_sleeping`, with at most so many rounds. -/
def checkFrom (size timeNowSec : Nat) (wakeupTime : PcbRef → Nat) (ccpu : PcbRef) :
    Nat → PcbRef → SleepState → Option SleepState
  | 0, _, _ => none
  | rounds + 1, pw, s =>
    if s.status pw ≠ .sleeping then none
    else do
      -- Both pointers are read before `wake_up` changes them.
      let tempNext := s.links.next pw
      let tempSleep := s.links.head .sleep
      let s ← s.wakeDue size timeNowSec wakeupTime pw ccpu
      if s.links.head .sleep = none ∧ some tempNext ≠ tempSleep then none
      else if some tempNext ≠ tempSleep then
        checkFrom size timeNowSec wakeupTime ccpu rounds tempNext s
      else return s

/-- `check_sleeping`. -/
def checkSleeping (s : SleepState) (size timeNowSec : Nat) (wakeupTime : PcbRef → Nat)
    (ccpu : PcbRef) : Option SleepState :=
  match s.links.head .sleep with
  | none => some s
  | some pw => checkFrom size timeNowSec wakeupTime ccpu size pw s

end SleepState

end GlucOS.Sched
