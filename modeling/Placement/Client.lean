import Placement.Coordinator
import Placement.Pool
import Placement.Registry.Client
import Placement.Store.Redis

/-!
From a configuration to a coordinator of Redis nodes.

The configuration is validated first. Nodes are reached when they are first needed; the registry has to be
there from the start.
-/

namespace Placement.Client

variable {σ : Type}

def endpoint (entry : Config.NodeEntry) : Store.Redis.Endpoint :=
  { host := entry.host, port := entry.port.toNat, password := entry.password }

def registryEndpoint (r : Config.RegistrySection) : Registry.Endpoint :=
  { host := r.host, controlPort := some r.controlPort.toNat, benchmarkPort := some r.benchmarkPort.toNat }

def node (serve : Config.NodeEntry → σ) (c : Config) (entry : Config.NodeEntry) : Store.Redis.Node σ :=
  { server := serve entry, endpoint := endpoint entry, patience := c.effectiveTimeout }

/-- A coordinator of the default nodes, and of the registry if there is one. -/
def start (network : Network) (serve : Config.NodeEntry → σ) (c : Config) :
    Except Fault (Coordinator (Store.Redis.Node σ) Registry.Client) := do
  c.validate
  let nodes ← Pool.ofConfig (node serve c) c
  let registry ← c.registry.mapM fun r => (registryEndpoint r).connect network
  return { cluster := { nodes, registry }, selection := c.effectiveSelection }

end Placement.Client
