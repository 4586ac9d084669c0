import HonorFB.IOKit
import HonorFB.Lib.Word
import HonorFB.Lib.Strided
import HonorFB.Lib.Latest
import HonorFB.Lib.Runs
import HonorFB.Lib.Spacing
import HonorFB.Lib.Machine
import HonorFB.Lib.Bytes
import HonorFB.Lib.Printf
import HonorFB.Lib.Replace
import HonorFB.Lib.Occurrences
import HonorFB.Lib.Plist
import HonorFB.Lib.Content
import HonorFB.Lib.Section
import HonorFB.Lib.Respelled
import HonorFB.Lib.Failstop
import HonorFB.Efi.Model
import HonorFB.Efi.Edits
import HonorFB.Efi.Script
import HonorFB.Efi.Output
import HonorFB.Efi.Wellformed
import HonorFB.Efi.Content
import HonorFB.Efi.Complete
import HonorFB.Framebuffer.Edid
import HonorFB.Framebuffer.Model
import HonorFB.Framebuffer.Mode
import HonorFB.Framebuffer.Console
import HonorFB.Framebuffer.Ddc
import HonorFB.Framebuffer.Session
import HonorFB.Framebuffer.Attributes
import HonorFB.Nub.Model
import HonorFB.Nub.Publish
import HonorFB.Paint.Model
import HonorFB.Paint.Picture
import HonorFB.Paint.Shown
import HonorFB.Aperture.Pixels
import HonorFB.Aperture.Exact
import HonorFB.Scan.Model
import HonorFB.Scan.Identity
import HonorFB.Scan.Outcome
import HonorFB.Vbl.Model
import HonorFB.Vbl.Subscription
import HonorFB.Vbl.Delivery
import HonorFB.Vbl.Stale
import HonorFB.Vbl.Arming
import HonorFB.Vbl.Stop
import HonorFB.Vbl.Interleave
import HonorFB.Vbl.Lifecycle
import HonorFB.Vbl.Steps
import HonorFB.Vbl.History
import HonorFB.Vbl.Time
import HonorFB.Vbl.Cadence
import HonorFB.Vbl.Recent
import HonorFB.Vbl.Woken
import HonorFB.Vbl.Quiet
import HonorFB.Vbl.Driver
import HonorFB.Probe.Model
import HonorFB.Probe.Report
import HonorFB.Probe.Agree
import HonorFB.Probe.Timing
