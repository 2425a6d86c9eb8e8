import SimpleCDatabase.Command.Absence
import SimpleCDatabase.Command.Database
import SimpleCDatabase.Command.Numerals
import SimpleCDatabase.Hashtable.LockLife
import SimpleCDatabase.Hashtable.Representation
import SimpleCDatabase.Server.Bounds
import SimpleCDatabase.Server.Conservation
import SimpleCDatabase.Server.Disposal
import SimpleCDatabase.Server.Framing
import SimpleCDatabase.Server.Isolation
import SimpleCDatabase.Server.Lifecycle
import SimpleCDatabase.Server.Progress
import SimpleCDatabase.Server.Untrusted
