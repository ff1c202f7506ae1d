import BcRuntime.Config.LineGrammar

/-!
Hosts on which a file can be read: every call succeeds, and every read before the
end of the file delivers a byte. On the first a load from a buffer stores the
bindings of its lines.
-/

namespace BcRuntime
open Fallible Run

def Host.AllCallsSucceed (host : Host) : Prop := ∀ n call, host.succeeds n call = true

theorem Host.AllCallsSucceed.store {host : Host} (h : host.AllCallsSucceed) :
    host.StoreCallsSucceed := fun n call _ => h n call

/-- A read before the end of a file delivers at least a byte. -/
def Host.ReadsDeliver (host : Host) : Prop := ∀ n, 0 < host.readCount n

variable {host : Host}

theorem loadFromBuffer_spec [BcCore] (store : host.StoreCallsSucceed) (data : List UInt8)
    (m : Machine) :
    wp (loadFromBuffer data) (fun _ m' => Loaded (storedBindings data) m m') (fun _ => False)
      host m := by
  obtain ⟨m', run, loaded⟩ := setAll_run store (storedBindings data) m
  simp only [wp, loadFromBuffer_eq, setEach_run run]
  exact loaded

theorem acquire_spec (calls : host.AllCallsSucceed) (m : Machine) (kind : ResourceKind)
    (call : ExternalCall) :
    wp (acquire kind call) (fun _ m' => Quiet m m') (fun _ => False) host m := by
  simp only [acquire, wp_bind, wp_external, wp_record, wp_pure, calls m.calls call]
  exact ⟨fun _ => ⟨⟨rfl, rfl⟩, rfl⟩, fun failed => Bool.false_ne_true failed.symm⟩

end BcRuntime
