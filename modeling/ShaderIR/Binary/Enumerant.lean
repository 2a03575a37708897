/-! Names of the values that operands of the binary format can have. -/

namespace ShaderIR.Binary

def capabilities : List (Nat × String) :=
  [(0, "Matrix"), (1, "Shader"), (2, "Geometry"), (3, "Tessellation"), (4, "Addresses"),
    (5, "Linkage"), (6, "Kernel"), (7, "Vector16"), (8, "Float16Buffer"), (9, "Float16"),
    (10, "Float64"), (11, "Int64"), (12, "Int64Atomics"), (13, "ImageBasic"),
    (14, "ImageReadWrite"), (15, "ImageMipmap"), (17, "Pipes"), (18, "Groups"),
    (19, "DeviceEnqueue"), (20, "LiteralSampler"), (21, "AtomicStorage"), (22, "Int16"),
    (23, "TessellationPointSize"), (24, "GeometryPointSize"), (25, "ImageGatherExtended"),
    (27, "StorageImageMultisample"), (28, "UniformBufferArrayDynamicIndexing"),
    (29, "SampledImageArrayDynamicIndexing"), (30, "StorageBufferArrayDynamicIndexing"),
    (31, "StorageImageArrayDynamicIndexing"), (32, "ClipDistance"), (33, "CullDistance"),
    (34, "ImageCubeArray"), (35, "SampleRateShading"), (36, "ImageRect"), (37, "SampledRect"),
    (38, "GenericPointer"), (39, "Int8"), (40, "InputAttachment"), (41, "SparseResidency"),
    (42, "MinLod"), (43, "Sampled1D"), (44, "Image1D"), (45, "SampledCubeArray"),
    (46, "SampledBuffer"), (47, "ImageBuffer"), (48, "ImageMSArray"),
    (49, "StorageImageExtendedFormats"), (50, "ImageQuery"), (51, "DerivativeControl"),
    (52, "InterpolationFunction"), (53, "TransformFeedback"), (54, "GeometryStreams"),
    (55, "StorageImageReadWithoutFormat"), (56, "StorageImageWriteWithoutFormat"),
    (57, "MultiViewport"), (58, "SubgroupDispatch"), (59, "NamedBarrier"), (60, "PipeStorage"),
    (61, "GroupNonUniform"), (62, "GroupNonUniformVote"), (63, "GroupNonUniformArithmetic"),
    (64, "GroupNonUniformBallot"), (65, "GroupNonUniformShuffle"),
    (66, "GroupNonUniformShuffleRelative"), (67, "GroupNonUniformClustered"),
    (68, "GroupNonUniformQuad"), (69, "ShaderLayer"), (70, "ShaderViewportIndex"),
    (71, "UniformDecoration"), (4165, "CoreBuiltinsARM"), (4166, "TileImageColorReadAccessEXT"),
    (4167, "TileImageDepthReadAccessEXT"), (4168, "TileImageStencilReadAccessEXT"),
    (4422, "FragmentShadingRateKHR"), (4423, "SubgroupBallotKHR"), (4427, "DrawParameters"),
    (4428, "WorkgroupMemoryExplicitLayoutKHR"),
    (4429, "WorkgroupMemoryExplicitLayout8BitAccessKHR"),
    (4430, "WorkgroupMemoryExplicitLayout16BitAccessKHR"), (4431, "SubgroupVoteKHR"),
    (4433, "StorageBuffer16BitAccess"), (4434, "UniformAndStorageBuffer16BitAccess"),
    (4435, "StoragePushConstant16"), (4436, "StorageInputOutput16"), (4437, "DeviceGroup"),
    (4439, "MultiView"), (4441, "VariablePointersStorageBuffer"), (4442, "VariablePointers"),
    (4445, "AtomicStorageOps"), (4447, "SampleMaskPostDepthCoverage"),
    (4448, "StorageBuffer8BitAccess"), (4449, "UniformAndStorageBuffer8BitAccess"),
    (4450, "StoragePushConstant8"), (4464, "DenormPreserve"), (4465, "DenormFlushToZero"),
    (4466, "SignedZeroInfNanPreserve"), (4467, "RoundingModeRTE"), (4468, "RoundingModeRTZ"),
    (4471, "RayQueryProvisionalKHR"), (4472, "RayQueryKHR"),
    (4478, "RayTraversalPrimitiveCullingKHR"), (4479, "RayTracingKHR"),
    (4484, "TextureSampleWeightedQCOM"), (4485, "TextureBoxFilterQCOM"),
    (4486, "TextureBlockMatchQCOM"), (5008, "Float16ImageAMD"), (5009, "ImageGatherBiasLodAMD"),
    (5010, "FragmentMaskAMD"), (5013, "StencilExportEXT"), (5015, "ImageReadWriteLodAMD"),
    (5016, "Int64ImageEXT"), (5055, "ShaderClockKHR"), (5067, "ShaderEnqueueAMDX"),
    (5249, "SampleMaskOverrideCoverageNV"), (5251, "GeometryShaderPassthroughNV"),
    (5254, "ShaderViewportIndexLayerEXT"), (5255, "ShaderViewportMaskNV"),
    (5259, "ShaderStereoViewNV"), (5260, "PerViewAttributesNV"),
    (5265, "FragmentFullyCoveredEXT"), (5266, "MeshShadingNV"), (5282, "ImageFootprintNV"),
    (5283, "MeshShadingEXT"), (5284, "FragmentBarycentricKHR"),
    (5288, "ComputeDerivativeGroupQuadsNV"), (5291, "FragmentDensityEXT"),
    (5297, "GroupNonUniformPartitionedNV"), (5301, "ShaderNonUniform"),
    (5302, "RuntimeDescriptorArray"), (5303, "InputAttachmentArrayDynamicIndexing"),
    (5304, "UniformTexelBufferArrayDynamicIndexing"),
    (5305, "StorageTexelBufferArrayDynamicIndexing"),
    (5306, "UniformBufferArrayNonUniformIndexing"), (5307, "SampledImageArrayNonUniformIndexing"),
    (5308, "StorageBufferArrayNonUniformIndexing"), (5309, "StorageImageArrayNonUniformIndexing"),
    (5310, "InputAttachmentArrayNonUniformIndexing"),
    (5311, "UniformTexelBufferArrayNonUniformIndexing"),
    (5312, "StorageTexelBufferArrayNonUniformIndexing"), (5336, "RayTracingPositionFetchKHR"),
    (5340, "RayTracingNV"), (5341, "RayTracingMotionBlurNV"), (5345, "VulkanMemoryModel"),
    (5346, "VulkanMemoryModelDeviceScope"), (5347, "PhysicalStorageBufferAddresses"),
    (5350, "ComputeDerivativeGroupLinearNV"), (5353, "RayTracingProvisionalKHR"),
    (5357, "CooperativeMatrixNV"), (5363, "FragmentShaderSampleInterlockEXT"),
    (5372, "FragmentShaderShadingRateInterlockEXT"), (5373, "ShaderSMBuiltinsNV"),
    (5378, "FragmentShaderPixelInterlockEXT"), (5379, "DemoteToHelperInvocation"),
    (5380, "DisplacementMicromapNV"), (5381, "RayTracingOpacityMicromapEXT"),
    (5383, "ShaderInvocationReorderNV"), (5390, "BindlessTextureNV"),
    (5391, "RayQueryPositionFetchKHR"), (5409, "RayTracingDisplacementMicromapNV"),
    (5568, "SubgroupShuffleINTEL"), (5569, "SubgroupBufferBlockIOINTEL"),
    (5570, "SubgroupImageBlockIOINTEL"), (5579, "SubgroupImageMediaBlockIOINTEL"),
    (5582, "RoundToInfinityINTEL"), (5583, "FloatingPointModeINTEL"),
    (5584, "IntegerFunctions2INTEL"), (5603, "FunctionPointersINTEL"),
    (5604, "IndirectReferencesINTEL"), (5606, "AsmINTEL"), (5612, "AtomicFloat32MinMaxEXT"),
    (5613, "AtomicFloat64MinMaxEXT"), (5616, "AtomicFloat16MinMaxEXT"),
    (5617, "VectorComputeINTEL"), (5619, "VectorAnyINTEL"), (5629, "ExpectAssumeKHR"),
    (5696, "SubgroupAvcMotionEstimationINTEL"), (5697, "SubgroupAvcMotionEstimationIntraINTEL"),
    (5698, "SubgroupAvcMotionEstimationChromaINTEL"), (5817, "VariableLengthArrayINTEL"),
    (5821, "FunctionFloatControlINTEL"), (5824, "FPGAMemoryAttributesINTEL"),
    (5837, "FPFastMathModeINTEL"), (5844, "ArbitraryPrecisionIntegersINTEL"),
    (5845, "ArbitraryPrecisionFloatingPointINTEL"), (5886, "UnstructuredLoopControlsINTEL"),
    (5888, "FPGALoopControlsINTEL"), (5892, "KernelAttributesINTEL"),
    (5897, "FPGAKernelAttributesINTEL"), (5898, "FPGAMemoryAccessesINTEL"),
    (5904, "FPGAClusterAttributesINTEL"), (5906, "LoopFuseINTEL"), (5908, "FPGADSPControlINTEL"),
    (5910, "MemoryAccessAliasingINTEL"), (5916, "FPGAInvocationPipeliningAttributesINTEL"),
    (5920, "FPGABufferLocationINTEL"), (5922, "ArbitraryPrecisionFixedPointINTEL"),
    (5935, "USMStorageClassesINTEL"), (5939, "RuntimeAlignedAttributeINTEL"),
    (5943, "IOPipesINTEL"), (5945, "BlockingPipesINTEL"), (5948, "FPGARegINTEL"),
    (6016, "DotProductInputAll"), (6017, "DotProductInput4x8Bit"),
    (6018, "DotProductInput4x8BitPacked"), (6019, "DotProduct"), (6020, "RayCullMaskKHR"),
    (6022, "CooperativeMatrixKHR"), (6025, "BitInstructions"), (6026, "GroupNonUniformRotateKHR"),
    (6033, "AtomicFloat32AddEXT"), (6034, "AtomicFloat64AddEXT"),
    (6089, "LongConstantCompositeINTEL"), (6094, "OptNoneINTEL"), (6095, "AtomicFloat16AddEXT"),
    (6114, "DebugInfoModuleINTEL"), (6115, "BFloat16ConversionINTEL"),
    (6141, "SplitBarrierINTEL"), (6146, "GlobalVariableFPGADecorationsINTEL"),
    (6161, "FPGAKernelAttributesv2INTEL"), (6167, "GlobalVariableHostAccessINTEL"),
    (6169, "FPMaxErrorINTEL"), (6171, "FPGALatencyControlINTEL"),
    (6174, "FPGAArgumentInterfacesINTEL"), (6400, "GroupUniformArithmeticKHR")]

def executionModels : List (Nat × String) :=
  [(0, "Vertex"), (1, "TessellationControl"), (2, "TessellationEvaluation"), (3, "Geometry"),
    (4, "Fragment"), (5, "GLCompute"), (6, "Kernel"), (5267, "TaskNV"), (5268, "MeshNV"),
    (5313, "RayGenerationKHR"), (5314, "IntersectionKHR"), (5315, "AnyHitKHR"),
    (5316, "ClosestHitKHR"), (5317, "MissKHR"), (5318, "CallableKHR"), (5364, "TaskEXT"),
    (5365, "MeshEXT")]

def executionModes : List (Nat × String) :=
  [(0, "Invocations"), (1, "SpacingEqual"), (2, "SpacingFractionalEven"),
    (3, "SpacingFractionalOdd"), (4, "VertexOrderCw"), (5, "VertexOrderCcw"),
    (6, "PixelCenterInteger"), (7, "OriginUpperLeft"), (8, "OriginLowerLeft"),
    (9, "EarlyFragmentTests"), (10, "PointMode"), (11, "Xfb"), (12, "DepthReplacing"),
    (14, "DepthGreater"), (15, "DepthLess"), (16, "DepthUnchanged"), (17, "LocalSize"),
    (18, "LocalSizeHint"), (19, "InputPoints"), (20, "InputLines"), (21, "InputLinesAdjacency"),
    (22, "Triangles"), (23, "InputTrianglesAdjacency"), (24, "Quads"), (25, "Isolines"),
    (26, "OutputVertices"), (27, "OutputPoints"), (28, "OutputLineStrip"),
    (29, "OutputTriangleStrip"), (30, "VecTypeHint"), (31, "ContractionOff"), (33, "Initializer"),
    (34, "Finalizer"), (35, "SubgroupSize"), (36, "SubgroupsPerWorkgroup"),
    (37, "SubgroupsPerWorkgroupId"), (38, "LocalSizeId"), (39, "LocalSizeHintId"),
    (4169, "NonCoherentColorAttachmentReadEXT"), (4170, "NonCoherentDepthAttachmentReadEXT"),
    (4171, "NonCoherentStencilAttachmentReadEXT"), (4421, "SubgroupUniformControlFlowKHR"),
    (4446, "PostDepthCoverage"), (4459, "DenormPreserve"), (4460, "DenormFlushToZero"),
    (4461, "SignedZeroInfNanPreserve"), (4462, "RoundingModeRTE"), (4463, "RoundingModeRTZ"),
    (5017, "EarlyAndLateFragmentTestsAMD"), (5027, "StencilRefReplacingEXT"),
    (5069, "CoalescingAMDX"), (5071, "MaxNodeRecursionAMDX"), (5072, "StaticNumWorkgroupsAMDX"),
    (5073, "ShaderIndexAMDX"), (5077, "MaxNumWorkgroupsAMDX"),
    (5079, "StencilRefUnchangedFrontAMD"), (5080, "StencilRefGreaterFrontAMD"),
    (5081, "StencilRefLessFrontAMD"), (5082, "StencilRefUnchangedBackAMD"),
    (5083, "StencilRefGreaterBackAMD"), (5084, "StencilRefLessBackAMD"), (5269, "OutputLinesEXT"),
    (5270, "OutputPrimitivesEXT"), (5289, "DerivativeGroupQuadsNV"),
    (5290, "DerivativeGroupLinearNV"), (5298, "OutputTrianglesEXT"),
    (5366, "PixelInterlockOrderedEXT"), (5367, "PixelInterlockUnorderedEXT"),
    (5368, "SampleInterlockOrderedEXT"), (5369, "SampleInterlockUnorderedEXT"),
    (5370, "ShadingRateInterlockOrderedEXT"), (5371, "ShadingRateInterlockUnorderedEXT"),
    (5618, "SharedLocalMemorySizeINTEL"), (5620, "RoundingModeRTPINTEL"),
    (5621, "RoundingModeRTNINTEL"), (5622, "FloatingPointModeALTINTEL"),
    (5623, "FloatingPointModeIEEEINTEL"), (5893, "MaxWorkgroupSizeINTEL"),
    (5894, "MaxWorkDimINTEL"), (5895, "NoGlobalOffsetINTEL"), (5896, "NumSIMDWorkitemsINTEL"),
    (5903, "SchedulerTargetFmaxMhzINTEL"), (6154, "StreamingInterfaceINTEL"),
    (6160, "RegisterMapInterfaceINTEL"), (6417, "NamedBarrierCountINTEL")]

def storageClasses : List (Nat × String) :=
  [(0, "UniformConstant"), (1, "Input"), (2, "Uniform"), (3, "Output"), (4, "Workgroup"),
    (5, "CrossWorkgroup"), (6, "Private"), (7, "Function"), (8, "Generic"), (9, "PushConstant"),
    (10, "AtomicCounter"), (11, "Image"), (12, "StorageBuffer"), (4172, "TileImageEXT"),
    (5068, "NodePayloadAMDX"), (5076, "NodeOutputPayloadAMDX"), (5328, "CallableDataKHR"),
    (5329, "IncomingCallableDataKHR"), (5338, "RayPayloadKHR"), (5339, "HitAttributeKHR"),
    (5342, "IncomingRayPayloadKHR"), (5343, "ShaderRecordBufferKHR"),
    (5349, "PhysicalStorageBuffer"), (5385, "HitObjectAttributeNV"),
    (5402, "TaskPayloadWorkgroupEXT"), (5605, "CodeSectionINTEL"), (5936, "DeviceOnlyINTEL"),
    (5937, "HostOnlyINTEL")]

end ShaderIR.Binary
