import EvProxy.Text.Search
import EvProxy.Text.Lines
import EvProxy.Text.Checked
import EvProxy.Http.Ascii
import EvProxy.Http.Request
import EvProxy.Http.Url
import EvProxy.Http.Parse
import EvProxy.Http.Accepted
import EvProxy.Http.Framing
import EvProxy.Http.Upstream
import EvProxy.Http.Render
import EvProxy.Http.Checked
import EvProxy.Cache.Lru
import EvProxy.Cache.Refinement
import EvProxy.Config
import EvProxy.Runs
import EvProxy.Ledger
import EvProxy.Recency
import EvProxy.Recency.Inclusion
import EvProxy.Mailbox
import EvProxy.Crew
import EvProxy.Leases
import EvProxy.Dialogue
import EvProxy.Sections
import EvProxy.Bells
import EvProxy.Settings
import EvProxy.Config.Load
import EvProxy.Config.Grammar
import EvProxy.Config.Flags
import EvProxy.Conn.State
import EvProxy.Conn.Handlers
import EvProxy.Conn.Step
import EvProxy.Conn.Session
import EvProxy.Conn.Phase
import EvProxy.Conn.Relay
import EvProxy.Conn.Delivery
import EvProxy.Conn.Fallback
import EvProxy.Conn.Segmentation
import EvProxy.Conn.Buffers
import EvProxy.Conn.Refusals
import EvProxy.Conn.BodyFraming
import EvProxy.Conn.Descriptors
import EvProxy.Conn.CacheUse
import EvProxy.Conn.Termination
import EvProxy.Conn.BodyWait
import EvProxy.Conn.Checked
import EvProxy.Conn.Renaming
import EvProxy.Proxy.System
import EvProxy.Proxy.Coherence
import EvProxy.Proxy.Provenance
import EvProxy.Proxy.Credentials
import EvProxy.Proxy.Bodies
import EvProxy.Proxy.Cookies
import EvProxy.Proxy.Roster
import EvProxy.Cache.Locking
import EvProxy.Loop.State
import EvProxy.Loop.Registration
import EvProxy.Proxy.Custody
import EvProxy.Loop.Driver
import EvProxy.Loop.Adoption
import EvProxy.Loop.Drain
import EvProxy.Loop.Custody
import EvProxy.Backend.ConnQueue
import EvProxy.Backend.ThreadPerConn
import EvProxy.Backend.ThreadPool
import EvProxy.Backend.Wakeups
import EvProxy.Backend.Custody
import EvProxy.Backend.Inbox
import EvProxy.Backend.Sharded
import EvProxy.Resolver.State
import EvProxy.Resolver.HandOff
import EvProxy.Resolver.Wakeup
import EvProxy.Resolver.Dns
import EvProxy.Resolver.Clients
import EvProxy.Resolver.Custody
import EvProxy.Resolver.Arms
import EvProxy.Socket.Calls
import EvProxy.Socket.Handlers
import EvProxy.Socket.Refinement
import EvProxy.Socket.Exactness
import EvProxy.Socket.Custody
import EvProxy.Resolver.Shutdown
