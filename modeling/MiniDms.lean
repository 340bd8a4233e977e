import MiniDms.Transitions.Runs
import MiniDms.Relations.Table
import MiniDms.Relations.Query
import MiniDms.Relations.Paging
import MiniDms.Sequences.Separators
import MiniDms.Sequences.Words
import MiniDms.Sequences.Firsts
import MiniDms.Sequences.Codes
import MiniDms.Python.Text
import MiniDms.Python.Utf8
import MiniDms.Python.Json
import MiniDms.Python.Nesting
import MiniDms.Python.Exceptions
import MiniDms.Python.Octets
import MiniDms.Python.KeyOrder
import MiniDms.Python.Encoding
import MiniDms.Python.EncodedWords
import MiniDms.Python.Identity
import MiniDms.Python.Decoding
import MiniDms.Python.Doubles
import MiniDms.Python.Rounding
import MiniDms.Python.Numerals
import MiniDms.Python.Unambiguous
import MiniDms.Python.ReadBack
import MiniDms.Python.Integers
import MiniDms.Python.Uuids
import MiniDms.Python.SideBySide
import MiniDms.Python.Traced
import MiniDms.Documents.Ocr
import MiniDms.Documents.Models
import MiniDms.Documents.Services
import MiniDms.Documents.Serializers
import MiniDms.Documents.Jobs
import MiniDms.Documents.Upload
import MiniDms.Documents.Views
import MiniDms.Documents.JobList
import MiniDms.Core.Pagination
import MiniDms.Core.Observability
import MiniDms.Documents.Fields
import MiniDms.Documents.Files
import MiniDms.Documents.UploadForms
import MiniDms.Documents.RequestSize
import MiniDms.Documents.Extraction
import MiniDms.Validation.Metadata
import MiniDms.Validation.Tags
import MiniDms.Validation.Storable
import MiniDms.Validation.StrictInput
import MiniDms.Validation.TagEncodings
import MiniDms.Validation.Fields
import MiniDms.Validation.Files
import MiniDms.Validation.RequestGate
import MiniDms.Validation.UploadForms
import MiniDms.Extraction.Limits
import MiniDms.Extraction.Pages
import MiniDms.Extraction.TextLimit
import MiniDms.Extraction.Failures
import MiniDms.Search.IndexedWords
import MiniDms.Unicode.Normalization
import MiniDms.Search.Spellings
import MiniDms.Workflow.World
import MiniDms.Workflow.Effects
import MiniDms.Workflow.Identity
import MiniDms.Workflow.JobLifecycle
import MiniDms.Workflow.Provenance
import MiniDms.Workflow.DocumentLifecycle
import MiniDms.Workflow.Lockstep
import MiniDms.Workflow.Fencing
import MiniDms.Workflow.Revision
import MiniDms.Workflow.AuditTrail
import MiniDms.Workflow.Completion
import MiniDms.Workflow.UploadAtomicity
import MiniDms.Workflow.Grace
import MiniDms.Workflow.Retries
import MiniDms.Workflow.Dispatch
import MiniDms.Workflow.StorageKeys
import MiniDms.Workflow.ObjectSafety
import MiniDms.Workflow.ObjectCover
import MiniDms.Workflow.Idempotency
import MiniDms.Workflow.Commutation
import MiniDms.Workflow.Deletion
import MiniDms.Workflow.SearchIndex
import MiniDms.Workflow.MetadataEdits
import MiniDms.Workflow.RunJob
import MiniDms.Workflow.Settlement
import MiniDms.Workflow.Uploaded
import MiniDms.Workflow.Downloads
import MiniDms.Workflow.Attribution
import MiniDms.Workflow.Deliveries
import MiniDms.Workflow.Interference
import MiniDms.Workflow.Progress
import MiniDms.Workflow.Drain
import MiniDms.Workflow.Leases
import MiniDms.Workflow.Preconditions
import MiniDms.Workflow.Integrity
import MiniDms.Workflow.Echo
import MiniDms.Workflow.Reupload
import MiniDms.Workflow.Fingerprint
import MiniDms.Workflow.Requests
import MiniDms.Workflow.Ownership
import MiniDms.Workflow.Slices
import MiniDms.Workflow.Readings
import MiniDms.Workflow.TwoRuns
import MiniDms.Workflow.OwnerIsolation
import MiniDms.Workflow.Walks
