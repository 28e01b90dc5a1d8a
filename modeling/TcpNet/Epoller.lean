import TcpNet.Multiplexer

open Transition

namespace TcpNet

/-- The operations of `epoll_ctl`. -/
inductive EpollOperation where
  | EPOLL_CTL_ADD
  | EPOLL_CTL_MOD
  | EPOLL_CTL_DEL
  deriving DecidableEq, Repr

/-- The events of an `epoll_event`, and the channel that its `data` points to. -/
structure EpollEvent where
  events : Events
  ptr : ChannelId
  deriving DecidableEq, Repr

/-- A call of `epoll_ctl`, and whether its descriptor was in the set. -/
structure EpollCtl where
  operation : EpollOperation
  fd : Int
  present : Bool
  deriving DecidableEq, Repr

/-- The fields of an `Epoller` and the index that its channels keep, with the set that
    the kernel keeps behind `epollfd_`. -/
structure Epoller where
  channels_ : Std.ExtTreeMap Int ChannelId
  index_ : ChannelId → Int
  kernel : Std.ExtTreeMap Int EpollEvent

namespace Epoller

def kNew : Int := -1

def kAdded : Int := 1

def kDelete : Int := -2

def new : Epoller := ⟨∅, fun _ => -1, ∅⟩

def setIndex (p : Epoller) (c : ChannelId) (idx : Int) : Epoller :=
  { p with index_ := Function.update p.index_ c idx }

/-- `epoll_ctl` fails for an `ADD` of what is there, and for a `MOD` or `DEL` of what is
    not. The first two failures end the program, and the third one is only logged. -/
def update (p : Epoller) (operation : EpollOperation) (c : ChannelId) (channel : Channel) :
    Except Stop (Epoller × List EpollCtl) :=
  let fd := channel.fd_
  let present := (p.kernel[fd]?).isSome
  let event : EpollEvent := ⟨channel.event_, c⟩
  match operation with
  | .EPOLL_CTL_ADD => do
    require (present = false)
    return ({ p with kernel := p.kernel.insert fd event }, [⟨operation, fd, present⟩])
  | .EPOLL_CTL_MOD => do
    require (present = true)
    return ({ p with kernel := p.kernel.insert fd event }, [⟨operation, fd, present⟩])
  | .EPOLL_CTL_DEL =>
    return ({ p with kernel := p.kernel.erase fd }, [⟨operation, fd, present⟩])

def updateChannel (p : Epoller) (c : ChannelId) (channel : Channel) :
    Except Stop (Epoller × List EpollCtl) := do
  let index := p.index_ c
  let fd := channel.fd_
  if index = kNew ∨ index = kDelete then
    if index = kNew then
      require (p.channels_[fd]? = none)
      let p := { p with channels_ := p.channels_.insert fd c }
      (p.setIndex c kAdded).update .EPOLL_CTL_ADD c channel
    else
      require (p.channels_[fd]? = some c)
      (p.setIndex c kAdded).update .EPOLL_CTL_ADD c channel
  else
    require (p.channels_[fd]? = some c)
    if channel.isNoneEvent then
      let (p, es) ← p.update .EPOLL_CTL_DEL c channel
      return (p.setIndex c kDelete, es)
    else p.update .EPOLL_CTL_MOD c channel

def removeChannel (p : Epoller) (c : ChannelId) (channel : Channel) :
    Except Stop (Epoller × List EpollCtl) := do
  let fd := channel.fd_
  require (p.channels_[fd]? = some c)
  require (channel.isNoneEvent = true)
  let index := p.index_ c
  require (index = kAdded ∨ index = kDelete)
  let p := { p with channels_ := p.channels_.erase fd }
  let (p, es) ← if index = kAdded then p.update .EPOLL_CTL_DEL c channel else pure (p, [])
  return (p.setIndex c kNew, es)

def multiplexer : Multiplexer Epoller EpollCtl where
  new := new
  descriptor _ := True
  updateChannel := updateChannel
  removeChannel := removeChannel

end Epoller

end TcpNet
