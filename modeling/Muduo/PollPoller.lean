import Mathlib.Data.List.AList
import Muduo.Channel
import Muduo.Lib.Slice
import Muduo.Lib.Stepper

/-! # The poller that calls `poll`

`PollPoller` keeps an entry of `pollfds_` for each channel and the index of the entry in the channel. The entry of a
channel without events has the negative number `-fd - 1`, which `poll` ignores. To remove a channel, the last entry is
moved into the hole and the index of its channel is set; the channels are therefore part of the state. -/

namespace Muduo
open Lib

/-- `struct pollfd` -/
structure PollFd where
  fd : Int
  events : BitVec 16
  revents : BitVec 16 := 0

/-- The asserts of `PollPoller.cc`, and the null pointer that `channels_[channelAtEnd]` would be. -/
inductive PollAssert where
  | fillContains
  | updateNew
  | updateContains
  | updateSame
  | updateIndex
  | updateFd
  | removeContains
  | removeSame
  | removeNoneEvent
  | removeIndex
  | removeEntry
  | removeErased
  | removeMoved
  deriving DecidableEq

structure PollPoller where
  /-- `channels_`, from descriptors to channels. -/
  channels : AList (fun _ : Nat => ChannelId) := ∅
  pollfds : List PollFd := []
  failed : List PollAssert := []

namespace PollPoller

def check (p : PollPoller) (a : PollAssert) (holds : Bool) : PollPoller :=
  if holds then p else { p with failed := a :: p.failed }

/-- The descriptor of an entry, whether it is negated or not. -/
def fdOf (fd : Int) : Int := if 0 ≤ fd then fd else -fd - 1

/-- `fillActiveChannels`, from the front of the entries on: the channels with the `revents` they are given. -/
def fillActive (channels : AList fun _ : Nat => ChannelId) : Int → List PollFd → Except PollAssert (List (ChannelId × Mask))
  | _, [] => .ok []
  | numEvents, pfd :: pfds =>
    if numEvents ≤ 0 then .ok []
    else if pfd.revents.toInt ≤ 0 then fillActive channels numEvents pfds
    else
      match channels.lookup (fdOf pfd.fd).toNat with
      | none => .error .fillContains
      | some channel => do
        let activeChannels ← fillActive channels (numEvents - 1) pfds
        return (channel, pfd.revents.signExtend 32) :: activeChannels

def fillActiveChannels (numEvents : Int) (p : PollPoller) : Except PollAssert (List (ChannelId × Mask)) :=
  fillActive p.channels numEvents p.pollfds

/-- The index that the channel gets is the second component. -/
def updateChannel (p : PollPoller) (c : Channel) : PollPoller × Int :=
  if c.index < 0 then
    let p := p.check .updateNew (p.channels.lookup c.fd).isNone
    let pfd : PollFd := { fd := c.fd, events := c.events.setWidth 16, revents := 0 }
    let pollfds := p.pollfds ++ [pfd]
    ({ p with pollfds := pollfds, channels := p.channels.insert c.fd c.id }, (pollfds.length : Int) - 1)
  else
    let p := p.check .updateContains (p.channels.lookup c.fd).isSome
    let p := p.check .updateSame (p.channels.lookup c.fd = some c.id)
    let idx := c.index
    let p := p.check .updateIndex (0 ≤ idx ∧ idx.toNat < p.pollfds.length)
    let p := p.check .updateFd (p.pollfds[idx.toNat]?.any fun pfd => pfd.fd = (c.fd : Int) ∨ pfd.fd = -(c.fd : Int) - 1)
    let fd : Int := if c.isNoneEvent then -(c.fd : Int) - 1 else c.fd
    ({ p with pollfds := p.pollfds.set idx.toNat { fd := fd, events := c.events.setWidth 16, revents := 0 } }, idx)

/-- `removeChannel` after its asserts. The second component is the channel whose entry was moved, with its new
index. -/
def eraseChannel (p : PollPoller) (c : Channel) : PollPoller × Option (ChannelId × Int) :=
  let idx := c.index
  let p := { p with channels := p.channels.erase c.fd }
  if idx.toNat = p.pollfds.length - 1 then ({ p with pollfds := p.pollfds.dropLast }, none)
  else
    match p.pollfds.getLast? with
    | none => (p, none)
    | some last =>
      let p := { p with pollfds := (iterSwap p.pollfds idx.toNat (p.pollfds.length - 1)).dropLast }
      match p.channels.lookup (fdOf last.fd).toNat with
      | none => (p.check .removeMoved false, none)
      | some moved => (p, some (moved, idx))

def removeChannel (p : PollPoller) (c : Channel) : PollPoller × Option (ChannelId × Int) :=
  let p := p.check .removeContains (p.channels.lookup c.fd).isSome
  let p := p.check .removeSame (p.channels.lookup c.fd = some c.id)
  let p := p.check .removeNoneEvent c.isNoneEvent
  let idx := c.index
  let p := p.check .removeIndex (0 ≤ idx ∧ idx.toNat < p.pollfds.length)
  let p := p.check .removeEntry (p.pollfds[idx.toNat]?.any fun pfd =>
    (pfd.fd = -(c.fd : Int) - 1 ∨ pfd.fd = (c.fd : Int)) ∧ pfd.events.signExtend 32 = c.events)
  let p := p.check .removeErased (p.channels.lookup c.fd).isSome
  p.eraseChannel c

end PollPoller

/-! ## The channels of the poller -/

/-- The functions of a channel that end in the poller. -/
inductive ChannelOp where
  | enableReading
  | disableReading
  | enableWriting
  | disableWriting
  | disableAll
  | remove
  deriving DecidableEq

/-- The mask after the function. -/
def ChannelOp.mask : ChannelOp → Mask → Mask
  | enableReading, events => events ||| Channel.kReadEvent
  | disableReading, events => events &&& ~~~Channel.kReadEvent
  | enableWriting, events => events ||| Channel.kWriteEvent
  | disableWriting, events => events &&& ~~~Channel.kWriteEvent
  | disableAll, _ => Channel.kNoneEvent
  | remove, events => events

/-- A loop with this poller. -/
structure PollLoop where
  /-- The objects that the pointers in `channels_` point to. -/
  channels : ChannelId → Channel
  poller : PollPoller := {}
  /-- The channels that have been removed. -/
  removed : List ChannelId := []

namespace PollLoop

def new (fd : ChannelId → Nat) : PollLoop := { channels := fun id => { id := id, fd := fd id } }

def setChannel (id : ChannelId) (f : Channel → Channel) (s : PollLoop) : PollLoop :=
  { s with channels := fun i => if i = id then f (s.channels i) else s.channels i }

/-- `Channel::update`, after the mask was set. -/
def update (id : ChannelId) (s : PollLoop) : PollLoop :=
  let s := s.setChannel id fun c => { c with addedToLoop := true }
  let (p, index) := s.poller.updateChannel (s.channels id)
  ({ s with poller := p } : PollLoop).setChannel id fun c => { c with index := index }

/-- `setIndex` of the channel whose entry was moved. -/
def setMoved (moved : Option (ChannelId × Int)) (s : PollLoop) : PollLoop :=
  match moved with
  | none => s
  | some (id, index) => s.setChannel id fun c => { c with index := index }

/-- `Channel::remove` -/
def remove (id : ChannelId) (s : PollLoop) : PollLoop :=
  let s := s.setChannel id fun c =>
    let c := if c.isNoneEvent then c else { c with failed := .removeNoneEvent :: c.failed }
    { c with addedToLoop := false }
  let (p, moved) := s.poller.removeChannel (s.channels id)
  ({ s with poller := p, removed := id :: s.removed } : PollLoop).setMoved moved

def perform (id : ChannelId) (op : ChannelOp) (s : PollLoop) : PollLoop :=
  match op with
  | .remove => s.remove id
  | op => (s.setChannel id fun c => { c with events := op.mask c.events }).update id

inductive Event where
  | channel (id : ChannelId) (op : ChannelOp)
  /-- `poll` sets the `revents` of every entry. -/
  | poll (revents : Nat → BitVec 16)

def step (s : PollLoop) : Event → PollLoop
  | .channel id op => s.perform id op
  | .poll revents =>
    { s with
      poller := { s.poller with pollfds := s.poller.pollfds.mapIdx fun i pfd => { pfd with revents := revents i } } }

def system : Stepper PollLoop Event := ⟨fun s e => some (s.step e)⟩

/-- The mask with which the kernel may report events for a descriptor, if it may report any. -/
def watched (s : PollLoop) (fd : Nat) : Option Mask :=
  (s.poller.pollfds.find? fun pfd => pfd.fd = (fd : Int)).map fun pfd => pfd.events.signExtend 32

/-- No assert has failed. -/
def Passed (s : PollLoop) : Prop := s.poller.failed = [] ∧ ∀ i, (s.channels i).failed = []

end PollLoop

/-! ## The same channels with either poller -/

/-- A loop with an `EPollPoller`. -/
structure EPollLoop where
  channels : ChannelId → Channel
  loop : EventLoop := {}

namespace EPollLoop

def new (fd : ChannelId → Nat) : EPollLoop := { channels := fun id => { id := id, fd := fd id } }

def perform (id : ChannelId) (op : ChannelOp) (s : EPollLoop) : EPollLoop :=
  let c := s.channels id
  let (loop, c) :=
    match op with
    | .enableReading => c.enableReading s.loop
    | .disableReading => c.disableReading s.loop
    | .enableWriting => c.enableWriting s.loop
    | .disableWriting => c.disableWriting s.loop
    | .disableAll => c.disableAll s.loop
    | .remove => c.remove s.loop
  { channels := fun i => if i = id then c else s.channels i, loop := loop }

@[inherit_doc PollLoop.watched]
def watched (s : EPollLoop) (fd : Nat) : Option Mask := (s.loop.poller.epoll fd).map Prod.snd

@[inherit_doc PollLoop.Passed]
def Passed (s : EPollLoop) : Prop := s.loop.poller.failed = [] ∧ s.loop.failed = [] ∧ ∀ i, (s.channels i).failed = []

end EPollLoop

/-- Two loops on whose channels the same operations are made. -/
structure PollerPair where
  epoll : EPollLoop
  poll : PollLoop

namespace PollerPair

def new (fd : ChannelId → Nat) : PollerPair := ⟨.new fd, .new fd⟩

def perform (id : ChannelId) (op : ChannelOp) (s : PollerPair) : PollerPair :=
  ⟨s.epoll.perform id op, s.poll.perform id op⟩

def system : Stepper PollerPair (ChannelId × ChannelOp) := ⟨fun s e => some (s.perform e.1 e.2)⟩

end PollerPair
end Muduo
