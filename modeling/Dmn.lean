import Dmn.Verification.Cursor.Correctness
import Dmn.Verification.Lmbcs.RoundTrip
import Dmn.Library.BoolText.Meaning
import Dmn.Model.Dql
import Dmn.Verification.Dql.Terms
import Dmn.Verification.Dql.Grouping
import Dmn.Verification.Dql.UniqueReading
import Dmn.Model.View
import Dmn.Verification.View.Entries
import Dmn.Verification.View.Iteration
import Dmn.Model.Native
import Dmn.Model.DesignView
import Dmn.Verification.Native
import Dmn.Verification.Formula.ItemName
import Dmn.Library.Table
import Dmn.Verification.Note
import Dmn.Verification.Design.ColumnNames
import Dmn.Verification.Design.Saving
import Dmn.Model.Acl
import Dmn.Verification.Acl.Roles
import Dmn.Verification.Acl.Updates
import Dmn.Verification.Acl.RoleCheck
import Dmn.Library.FlagWord
import Dmn.Verification.Acl.Frame
import Dmn.Verification.Acl.SharedEntry
import Dmn.Model.Lifetime
import Dmn.Verification.ThreadContext.Invariant
import Dmn.Verification.ThreadContext.Preservation
import Dmn.Verification.ThreadContext.Methods
import Dmn.Verification.ThreadContext.Runs
import Dmn.Verification.ThreadContext.NoteHandles
import Dmn.Model.ScopedHandle
import Dmn.Verification.ScopedHandle
import Dmn.Model.NoteLock
import Dmn.Verification.NoteLock
import Dmn.Model.TextList
import Dmn.Verification.TextList
import Dmn.Model.Mail
import Dmn.Verification.Mail
import Dmn.Verification.View.Keyed
import Dmn.Library.ByteReader
import Dmn.Verification.Design.Layout
import Dmn.Model.NoteValue
import Dmn.Verification.NoteValue
import Dmn.Model.Locker
import Dmn.Model.MemoryOwner
import Dmn.Model.Names
import Dmn.Model.MemoryRuns
import Dmn.Verification.Locker
import Dmn.Verification.MemoryOwner
import Dmn.Model.SharedNote
import Dmn.Verification.SharedNote
import Dmn.Verification.Formula.Insertion
import Dmn.Verification.Formula.Attempts
import Dmn.Verification.Design.Retry
import Dmn.Verification.Design.Collation
import Dmn.Verification.Design.ItemNames
import Dmn.Verification.NoteKeys
import Dmn.Verification.NoteItems
import Dmn.Library.Binary64
import Dmn.Verification.NoteIntegers
import Dmn.Model.Value
import Dmn.Verification.DecoderBounds
import Dmn.Verification.View.Columns
import Dmn.Verification.View.EmptyReads
import Dmn.Verification.View.EmptyKey
import Dmn.Verification.Dql.Quoting
import Dmn.Library.HalfEven
import Dmn.Verification.Dql.Numerals
import Dmn.Verification.Dql.Validation
import Dmn.Model.Agent
import Dmn.Verification.Agent
import Dmn.Verification.Acl.AddedEntry
import Dmn.Verification.Acl.Coherence
import Dmn.Verification.Acl.NativeName
import Dmn.Verification.Acl.RoleTable
import Dmn.Verification.Acl.StoredRole
import Dmn.Verification.Acl.RoleRuns
import Dmn.Model.Unid
import Dmn.Verification.Unid
import Dmn.Model.NameBuffer
import Dmn.Verification.ListStrings
import Dmn.Verification.NameBuffer
import Dmn.Verification.DatabasePath
import Dmn.Library.Calendar
import Dmn.Model.TimeDate
import Dmn.Verification.TimeDate
import Dmn.Verification.LockAttempts
import Dmn.Model.MailSend
import Dmn.Verification.MailSend
import Dmn.Verification.Lmbcs.Unchanged
import Dmn.Verification.MailHeaders
import Dmn.Verification.Names
import Dmn.Library.Escaping
import Dmn.Model.Addin
import Dmn.Verification.Addin
import Dmn.Library.Workspace
import Dmn.Model.AclSession
import Dmn.Verification.AclSession.Invariant
import Dmn.Verification.AclSession.Steps
import Dmn.Verification.AclSession.Sessions
import Dmn.Library.Ascending
import Dmn.Model.Query
import Dmn.Verification.Query
import Dmn.Verification.Dql.Evaluation
import Dmn.Library.Ledger
import Dmn.Model.Mime
import Dmn.Verification.Mime
import Dmn.Model.MailLife
import Dmn.Verification.MailLife.Lists
import Dmn.Verification.MailLife.Sending
import Dmn.Verification.MailLife.Ends
import Dmn.Verification.MailLife.Runs
import Dmn.Verification.MailLife.Lives
import Dmn.Library.Monitor
import Dmn.Model.Threads
import Dmn.Verification.Threads.Invariant
import Dmn.Verification.Threads.Rules
import Dmn.Verification.Threads.Programs
import Dmn.Model.AttachedObject
import Dmn.Model.AgentDesign
import Dmn.Library.Effects
import Dmn.Verification.AgentDesign.Setters
import Dmn.Verification.AgentDesign.Runs
import Dmn.Verification.AgentDesign.Coherence
import Dmn.Verification.LockerMemory
import Dmn.Verification.AgentDesign.NewItems
import Dmn.Verification.AgentDesign.RunObject
import Dmn.Verification.AgentDesign.Creation
import Dmn.Library.Occurrence
import Dmn.Model.ItemValue
import Dmn.Verification.ItemValue
