import Pager.Address
import Pager.Error

/-!
What the pager reports while it works, one constructor for each thing it can
say. No event carries bytes of user memory.
-/
namespace Pager

inductive Severity where
  | trace | debug | warn
deriving DecidableEq, Repr

def Severity.name : Severity → String
  | .trace => "TRACE"
  | .debug => "DEBUG"
  | .warn => "WARN"

inductive Event where
  | swapReady (slots sectors : Nat)
  | installed
  | spaceCreated (space : SpaceId)
  | tornDown (space : SpaceId) (pages : Nat)
  | teardownWritebackFailed (space : SpaceId) (start : VirtualAddress) (error : PagerError)
  | evicted (page : VirtualAddress) (space : SpaceId) (frame : FrameId)
  | noVictim (frames : Nat) (swapFull : Bool)
  | faultResolved (space : SpaceId) (write : Bool) (address : VirtualAddress)
  | faultFatal (space : SpaceId) (user write : Bool) (address : VirtualAddress) (error : PagerError)
  | stackGrew (space : SpaceId) (page : VirtualAddress)
  | mapped (space : SpaceId) (length pages : Nat) (start : VirtualAddress) (mapping : MappingId)
  | writebackFailed (page : VirtualAddress) (error : PagerError)
  | unmapped (mapping : MappingId) (start : VirtualAddress)
  | duplicated (parent child : SpaceId) (pages : Nat)
deriving DecidableEq, Repr

namespace Event

def severity : Event → Severity
  | evicted .. | faultResolved .. => .trace
  | teardownWritebackFailed .. | faultFatal .. | writebackFailed .. => .warn
  | _ => .debug

private def access (write : Bool) : String := if write then "write" else "read"

private def mode (user : Bool) : String := if user then "user" else "kernel"

def message : Event → String
  | swapReady slots sectors => s!"swap: {slots} slots ({slots * 4} KiB) on {sectors} sectors"
  | installed => "virtual memory subsystem initialized"
  | spaceCreated space => s!"space {space}: created"
  | tornDown space pages => s!"space {space}: torn down, released {pages} pages"
  | teardownWritebackFailed space start error =>
    s!"space {space}: writeback of mapping at {start.text} failed: {error.message}"
  | evicted page space frame => s!"evicted {page.text} of space {space} from {frame.text}"
  | noVictim frames swapFull =>
    s!"eviction found no victim among {frames} frames (swap full: {swapFull})"
  | faultResolved space write address =>
    s!"space {space}: resolved {access write} fault at {address.text}"
  | faultFatal space user write address error =>
    s!"space {space}: fatal {mode user} {access write} fault at {address.text}: {error.message}"
  | stackGrew space page => s!"space {space}: stack grew to {page.text}"
  | mapped space length pages start mapping =>
    s!"space {space}: mapped {length} bytes ({pages} pages) at {start.text} as {mapping.text}"
  | writebackFailed page error => s!"writeback of {page.text} failed: {error.message}"
  | unmapped mapping start => s!"unmapped {mapping.text} at {start.text}"
  | duplicated parent child pages =>
    s!"space {parent}: duplicated into space {child} ({pages} pages)"

def line (event : Event) : String := s!"{event.severity.name} {event.message}"

end Event
end Pager
