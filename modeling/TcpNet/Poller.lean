import TcpNet.Channel
import TcpNet.Library.Transition
import Mathlib.Logic.Function.Basic
import Mathlib.Data.List.Lex

open Transition

namespace TcpNet

/-- A `Channel` object, by its address. -/
abbrev ChannelId := Nat

/-- A `short` used as a set of `poll` event bits. -/
abbrev ShortEvents := BitVec 16

structure PollFd where
  fd : Int
  events : ShortEvents
  revents : ShortEvents
  deriving DecidableEq, Repr

/-- The descriptor that an entry stands for. It is kept as a negative number where
    `poll` is to ignore it. -/
def PollFd.channelFd (pfd : PollFd) : Int := if pfd.fd < 0 then -pfd.fd - 1 else pfd.fd

/-- What an entry asks `poll` for. -/
def PollFd.request (pfd : PollFd) : Int × ShortEvents := (pfd.fd, pfd.events)

section Descriptors

variable {A : Type} {m : Std.ExtTreeMap Int A} {fd fd' : Int} {a : A}

theorem getElem?_insert_fd : (m.insert fd a)[fd']? = if fd = fd' then some a else m[fd']? := by
  rw [Std.ExtTreeMap.getElem?_insert]
  simp only [Std.compare_eq_iff_eq]

theorem getElem?_erase_fd : (m.erase fd)[fd']? = if fd = fd' then none else m[fd']? := by
  rw [Std.ExtTreeMap.getElem?_erase]
  simp only [Std.compare_eq_iff_eq]

end Descriptors

/-- The fields of a `Poller`, and the two fields of the channels that it alone sets. -/
structure Poller where
  pollfds_ : List PollFd
  channels_ : Std.ExtTreeMap Int ChannelId
  index_ : ChannelId → Int
  revent_ : ChannelId → Events

namespace Poller

def new : Poller := ⟨[], ∅, fun _ => -1, fun _ => 0⟩

def updateChannel (p : Poller) (c : ChannelId) (channel : Channel) : Except Stop Poller := do
  if p.index_ c < 0 then
    require (p.channels_[channel.fd_]? = none)
    let pfd : PollFd := ⟨channel.fd_, channel.event_.setWidth 16, 0⟩
    return { p with
      pollfds_ := p.pollfds_ ++ [pfd]
      channels_ := p.channels_.insert channel.fd_ c
      index_ := Function.update p.index_ c p.pollfds_.length }
  else
    require (p.channels_[channel.fd_]? = some c)
    let idx := p.index_ c
    match p.pollfds_[idx.toNat]? with
    | none => throw .assertion
    | some pfd => do
      require (pfd.fd = channel.fd_ ∨ pfd.fd = -channel.fd_ - 1)
      -- the descriptor of a channel that was disabled stays negative
      let fd := if channel.isNoneEvent then -channel.fd_ - 1 else pfd.fd
      return { p with
        pollfds_ := p.pollfds_.set idx.toNat ⟨fd, channel.event_.setWidth 16, 0⟩ }

/-- The last entry takes the place of the one that is removed. -/
def removeChannel (p : Poller) (c : ChannelId) (channel : Channel) : Except Stop Poller := do
  require (p.channels_[channel.fd_]? = some c)
  require (channel.isNoneEvent = true)
  let idx := p.index_ c
  require (0 ≤ idx ∧ idx < p.pollfds_.length)
  let channels := p.channels_.erase channel.fd_
  if idx.toNat = p.pollfds_.length - 1 then
    return { p with pollfds_ := p.pollfds_.dropLast, channels_ := channels }
  else
    match p.pollfds_.getLast? with
    | none => throw .assertion
    | some last =>
      -- a missing key would come out as a null pointer
      match channels[last.channelFd]? with
      | none => throw .assertion
      | some channelAtEnd =>
        return { p with
          pollfds_ := (p.pollfds_.set idx.toNat last).dropLast
          channels_ := channels
          index_ := Function.update p.index_ channelAtEnd idx }

/-- The loop of `fillActiveChannels` over the entries, with `nums` of them still to come. -/
def fillActiveChannels (p : Poller) (nums : Nat) :
    List PollFd → List ChannelId → Except Stop (Poller × List ChannelId)
  | [], activeChannels => return (p, activeChannels)
  | pfd :: rest, activeChannels =>
    if nums = 0 then return (p, activeChannels)
    else if pfd.revents.toInt > 0 then
      match p.channels_[pfd.fd]? with
      | none => throw .assertion
      | some c =>
        let p := { p with revent_ := Function.update p.revent_ c (pfd.revents.signExtend 32) }
        p.fillActiveChannels (nums - 1) rest (activeChannels ++ [c])
    else p.fillActiveChannels nums rest activeChannels

/-- `::poll` has reported `ready`, entry by entry. An entry with a negative descriptor is
    ignored. -/
def poll (p : Poller) (ready : List ShortEvents) : Except Stop (Poller × List ChannelId) :=
  let report (i : Nat) (pfd : PollFd) : PollFd :=
    { pfd with revents := if pfd.fd < 0 then 0 else ready.getD i 0 }
  let p := { p with pollfds_ := p.pollfds_.mapIdx report }
  p.fillActiveChannels (p.pollfds_.countP (·.revents ≠ 0)) p.pollfds_ []

end Poller

end TcpNet
