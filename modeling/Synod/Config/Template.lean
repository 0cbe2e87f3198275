/-
Synod.Config.Template -- a first configuration

The text of a configuration for a cluster of one node, with notes on how to go on.
The node's name is put in as it is.
-/

namespace Synod.Config

set_option autoImplicit false

/-- Lines, each with its line feed. -/
def linesOf (lines : List String) : String := String.join (lines.map (· ++ "\n"))

def template (id : String) : String :=
  linesOf [
    "# WolfPaxos Configuration",
    "# Generated configuration file",
    "",
    "[node]",
    "id = \"" ++ id ++ "\"",
    "bind_address = \"0.0.0.0:7654\"",
    "data_dir = \"/var/lib/wolfpaxos/" ++ id ++ "\"",
    "# advertise_address = \"my-public-ip:7654\"",
    "",
    "[cluster]",
    "members = [",
    "    \x7b id = \"" ++ id ++ "\", address = \"localhost:7654\" \x7d,",
    "]",
    "# members = [",
    "#     \x7b id = \"node-1\", address = \"node-1.example.com:7654\" \x7d,",
    "#     \x7b id = \"node-2\", address = \"node-2.example.com:7654\" \x7d,",
    "#     \x7b id = \"node-3\", address = \"node-3.example.com:7654\" \x7d,",
    "# ]",
    "heartbeat_interval_ms = 500",
    "heartbeat_timeout_ms = 1500",
    "liveness_window_ms = 2000",
    "liveness_poll_ms = 250",
    "liveness_jitter_ms = 250",
    "# min_quorum = 2",
    "# leader = \"node-1\"",
    "",
    "[logging]",
    "level = \"info\""]

end Synod.Config
