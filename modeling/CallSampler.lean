import CallSampler.Main
import CallSampler.Import
import CallSampler.Inspection
import CallSampler.Proofs.Calls.Arguments
import CallSampler.Proofs.Calls.Chains
import CallSampler.Proofs.Calls.Counting
import CallSampler.Proofs.Capture.Sharing
import CallSampler.Proofs.Import.Requests
import CallSampler.Proofs.Instrument.Judging
import CallSampler.Proofs.Instrument.Rewrapping
import CallSampler.Proofs.Store.Ledger
import CallSampler.Proofs.Store.Provenance
import CallSampler.Proofs.Store.Runs
import CallSampler.Proofs.Summary.Pipeline
import CallSampler.Proofs.Summary.Ranking
import CallSampler.Proofs.Transparency.Programs
import CallSampler.Proofs.Value.Dicts
import CallSampler.Proofs.Capture.Collisions
import CallSampler.Proofs.Import.Circles
import CallSampler.Proofs.Import.Registrations
import CallSampler.Proofs.Store.Interleaving
import CallSampler.Proofs.Value.Elision
