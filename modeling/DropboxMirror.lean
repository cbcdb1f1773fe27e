import DropboxMirror.Proof.CliPath
import DropboxMirror.Proof.Confirm
import DropboxMirror.Proof.Converge
import DropboxMirror.Proof.Deletions
import DropboxMirror.Proof.Download
import DropboxMirror.Proof.Durable
import DropboxMirror.Proof.Fits
import DropboxMirror.Proof.Gate
import DropboxMirror.Proof.Hashing
import DropboxMirror.Proof.Listing
import DropboxMirror.Proof.Loop
import DropboxMirror.Proof.Pool
import DropboxMirror.Proof.Spelling
import DropboxMirror.Proof.Staged
import DropboxMirror.Proof.Statefile
import DropboxMirror.Proof.Strays
import DropboxMirror.Proof.Verdict
import DropboxMirror.Proof.Topmost
import DropboxMirror.Proof.Torn
import DropboxMirror.Proof.Deadline
import DropboxMirror.Lib.Json
import DropboxMirror.Lib.JsonLex
import DropboxMirror.Model.Retry
import DropboxMirror.Model.Summary
import DropboxMirror.Proof.Retry
import DropboxMirror.Proof.Summary
import DropboxMirror.Proof.Folders
import DropboxMirror.Proof.Handover
import DropboxMirror.Proof.Worker
import DropboxMirror.Lib.Rewrite
import DropboxMirror.Model.Logging
import DropboxMirror.Proof.Redact
import DropboxMirror.Lib.Cleanup
import DropboxMirror.Model.Crypt
import DropboxMirror.Model.Session
import DropboxMirror.Model.SessionWalk
import DropboxMirror.Model.StateFiles
import DropboxMirror.Proof.Session
import DropboxMirror.Proof.SessionWalk
import DropboxMirror.Proof.Traces
import DropboxMirror.Lib.Retrying
import DropboxMirror.Model.Provider
import DropboxMirror.Proof.Guard
import DropboxMirror.Lib.Accrual
import DropboxMirror.Model.Nights
import DropboxMirror.Proof.Adoption
import DropboxMirror.Proof.WalkRefinement
import DropboxMirror.Proof.Growth
import DropboxMirror.Proof.NightSound
import DropboxMirror.Proof.ReconcilePhase
