import DistrRegistry.Basic
import DistrRegistry.Json
import DistrRegistry.Path
import DistrRegistry.Prog
import DistrRegistry.Call
import DistrRegistry.Handler
import DistrRegistry.Access
import DistrRegistry.Environment
import DistrRegistry.Pull
import DistrRegistry.Put
import DistrRegistry.Commit
import DistrRegistry.World
import DistrRegistry.Registry
import DistrRegistry.Referrers
import DistrRegistry.Query
import DistrRegistry.Router
import DistrRegistry.Runs
import DistrRegistry.Reads
import DistrRegistry.Integrity
import DistrRegistry.Progress
